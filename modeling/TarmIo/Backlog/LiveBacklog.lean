import TarmIo.Backlog.Reentrancy

/-!
# A backlog in use

All calls of a backlog with their results, `stop` among them, and the ticks of its timers, at any
time. The machine stops at every call of the expired callback; what the callback does is any
sequence of calls. A timer that ticks too late or too often is a run like any other.

With `m_entity_timeout` equal to the timeout in nanoseconds no item is reported before it has
expired. The constructor computes it as a `size_t`, which wraps for large timeouts.
-/

namespace TarmIo.BacklogWithTimeout

open Foundation

variable {α : Type*}

inductive Origin
  | addItem
  | onTimer
deriving DecidableEq

/-- `callbacks` lists the calls of the expired callback that have not returned, the innermost
first. `getters` says that the callback and the getters are set; `results` lists what `add_item`
and `remove_item` returned. -/
structure Live (α : Type*) where
  backlog : BacklogWithTimeout α
  getters : Bool := true
  walk : Option (Walk α) := none
  callbacks : List Origin := []
  results : List Bool := []

/-- `onTimer` is a tick of the timer at a position of `m_timers`. -/
inductive LiveCall (α : Type*)
  | addItem (x : α)
  | removeItem (x : α)
  | stop
  | onTimer (index : Nat)
  | visit
  | leave
  | advance (clock : UInt64) (itemTime : α → UInt64)

namespace Live

def userRuns (s : Live α) : Bool := s.walk.isNone || !s.callbacks.isEmpty

def answer (s : Live α) (result : Bool) : Live α := { s with results := s.results ++ [result] }

/-- Up to the expired callback, if the item has expired. -/
def addItem (s : Live α) (x : α) : Live α :=
  match BacklogWithTimeout.addItem ignoring s.backlog x with
  | (accepted, backlog) =>
      if accepted = true ∧ s.backlog.entityTimeout ≤ s.backlog.timeDiff x then
        { s with backlog, callbacks := .addItem :: s.callbacks }
      else { s with backlog }.answer accepted

/-- One round of the loop of `on_timer`, up to the expired callback. -/
def visit (s : Live α) (w : Walk α) : Live α :=
  let r := Reentrant.visit { backlog := s.backlog, walk := some w } w
  { s with
    backlog := r.backlog
    walk := r.walk
    callbacks := if r.callbacks = 0 then s.callbacks else .onTimer :: s.callbacks }

/-- The end of an expired callback. `on_timer` returns if the backlog was stopped. -/
def leave (s : Live α) : Option (Live α) :=
  match s.callbacks with
  | [] => none
  | .addItem :: callbacks => some ({ s with callbacks }.answer !s.backlog.timers.isEmpty)
  | .onTimer :: callbacks =>
      some { s with callbacks, walk := if s.backlog.timers.isEmpty then none else s.walk }

variable [DecidableEq α] {e : LiveCall α}

/-- After `stop` the getters are null; `add_item` calls them first. -/
def step (s : Live α) : LiveCall α → Option (Live α)
  | .addItem x => if s.userRuns ∧ s.getters then some (s.addItem x) else none
  | .removeItem x =>
      if s.userRuns then
        let (removed, backlog) := BacklogWithTimeout.removeItem s.backlog x
        some ({ s with backlog }.answer removed)
      else none
  | .stop =>
      if s.userRuns then some { s with backlog := s.backlog.stop, getters := false } else none
  | .onTimer index =>
      if s.walk = none ∧ s.callbacks = [] ∧ index < s.backlog.timers.length then
        some { s with walk := some { index, next := 0, kept := [] } }
      else none
  | .visit =>
      match s.walk, s.callbacks with
      | some w, [] => some (s.visit w)
      | _, _ => none
  | .leave => s.leave
  | .advance clock itemTime =>
      if s.backlog.clock ≤ clock then
        some { s with backlog := { s.backlog with clock, itemTime } }
      else none

inductive Steps (s : Live α) : LiveCall α → Live α → Prop
  | addItem (x : α) (runs : s.userRuns = true) (getters : s.getters = true) :
      Steps s (.addItem x) (s.addItem x)
  | removeItem (x : α) (runs : s.userRuns = true) :
      Steps s (.removeItem x)
        ({ s with backlog := (BacklogWithTimeout.removeItem s.backlog x).2 }.answer
          (BacklogWithTimeout.removeItem s.backlog x).1)
  | stop (runs : s.userRuns = true) :
      Steps s .stop { s with backlog := s.backlog.stop, getters := false }
  | onTimer (index : Nat) (resting : s.walk = none) (outside : s.callbacks = [])
      (started : index < s.backlog.timers.length) :
      Steps s (.onTimer index) { s with walk := some { index, next := 0, kept := [] } }
  | visit (w : Walk α) (walking : s.walk = some w) (outside : s.callbacks = []) :
      Steps s .visit (s.visit w)
  | leave {s' : Live α} (left : s.leave = some s') : Steps s .leave s'
  | advance (clock : UInt64) (itemTime : α → UInt64) (later : s.backlog.clock ≤ clock) :
      Steps s (.advance clock itemTime) { s with backlog := { s.backlog with clock, itemTime } }

theorem step_cases {s s' : Live α} (h : s.step e = some s') : Steps s e s' := by
  cases e with
  | addItem x =>
      rw [step] at h
      split at h
      · rename_i hruns
        cases h
        exact .addItem x hruns.1 hruns.2
      · cases h
  | removeItem x =>
      rw [step] at h
      split at h
      · rename_i hruns
        cases h
        exact .removeItem x hruns
      · cases h
  | stop =>
      rw [step] at h
      split at h
      · rename_i hruns
        cases h
        exact .stop hruns
      · cases h
  | onTimer index =>
      rw [step] at h
      split at h
      · rename_i hrest
        cases h
        exact .onTimer index hrest.1 hrest.2.1 hrest.2.2
      · cases h
  | visit =>
      rw [step] at h
      split at h
      · rename_i w hwalk hempty
        cases h
        exact .visit w hwalk hempty
      · cases h
  | leave => exact .leave h
  | advance clock itemTime =>
      rw [step] at h
      split at h
      · rename_i hlater
        cases h
        exact .advance clock itemTime hlater
      · cases h

/-! ## Reports -/

variable {x : α} {b : BacklogWithTimeout α}

structure Reports (b b' : BacklogWithTimeout α) : Prop where
  entityTimeout : b'.entityTimeout = b.entityTimeout
  timers : b'.timers = b.timers
  clock : b'.clock = b.clock
  itemTime : b'.itemTime = b.itemTime
  reported : b'.reported = b.reported ∨
    ∃ x fromAddItem, b.entityTimeout ≤ b.timeDiff x ∧
      b'.reported =
        b.reported ++ [{ item := x, itemTime := b.itemTime x, reportedAt := b.clock, fromAddItem }]

omit [DecidableEq α] in
theorem Reports.refl (b : BacklogWithTimeout α) : Reports b b := ⟨rfl, rfl, rfl, rfl, .inl rfl⟩

omit [DecidableEq α] in
theorem Reports.withItems (b : BacklogWithTimeout α) (items : List (List α)) :
    Reports b { b with items } := ⟨rfl, rfl, rfl, rfl, .inl rfl⟩

omit [DecidableEq α] in
theorem Reports.callExpired (h : b.entityTimeout ≤ b.timeDiff x) (fromAddItem : Bool) :
    Reports b (callExpired ignoring fromAddItem b x) :=
  ⟨rfl, rfl, rfl, rfl, .inr ⟨x, fromAddItem, h, rfl⟩⟩

omit [DecidableEq α] in
theorem reports_addItem (b : BacklogWithTimeout α) (x : α) :
    Reports b (BacklogWithTimeout.addItem ignoring b x).2 := by
  rw [BacklogWithTimeout.addItem]
  split
  · exact .refl b
  · split
    · exact .refl b
    · split
      · rename_i hexpired
        exact .callExpired hexpired true
      · exact .withItems b _

theorem reports_removeItem (b : BacklogWithTimeout α) (x : α) :
    Reports b (BacklogWithTimeout.removeItem b x).2 := by
  rw [BacklogWithTimeout.removeItem]
  split
  · exact .withItems b _
  · exact .refl b

omit [DecidableEq α] in
theorem reports_visit (s : Live α) (w : Walk α) : Reports s.backlog (s.visit w).backlog := by
  rw [visit]
  dsimp only
  rw [Reentrant.visit]
  split
  · exact .withItems s.backlog _
  · split
    · rename_i hexpired
      exact .callExpired hexpired false
    · split
      · exact .withItems s.backlog _
      · exact .refl s.backlog

/-! ## The timeout of a backlog in use -/

/-- Until `stop` the timeout is the given one. The loop of `on_timer` does not go on in a backlog
that was stopped. -/
structure Timed (timeout : UInt64) (s : Live α) : Prop where
  timeout : s.backlog.timers ≠ [] → s.backlog.entityTimeout = timeout
  walking : s.walk ≠ none → s.callbacks = [] → s.backlog.timers ≠ []
  outermost : s.walk ≠ none → s.callbacks = [] ∨ s.callbacks.getLast? = some .onTimer

variable {timeout : UInt64} {s s' : Live α} {itemTime : UInt64}

omit [DecidableEq α] in
theorem userRuns_iff : s.userRuns = true ↔ s.walk = none ∨ s.callbacks ≠ [] := by
  simp [userRuns]

omit [DecidableEq α] in
theorem Timed.call (h : Timed timeout s) (hruns : s.userRuns = true)
    {backlog : BacklogWithTimeout α} (hentity : backlog.entityTimeout = s.backlog.entityTimeout)
    (htimers : backlog.timers = s.backlog.timers) {getters : Bool} {results : List Bool} :
    Timed timeout { s with backlog, getters, results } := by
  refine ⟨?_, ?_, h.outermost⟩
  · intro hne
    rw [htimers] at hne
    exact hentity.trans (h.timeout hne)
  · intro hwalk hempty
    rcases userRuns_iff.mp hruns with hnone | hcallbacks
    · exact absurd hnone hwalk
    · exact absurd hempty hcallbacks

omit [DecidableEq α] in
theorem Timed.addItem (h : Timed timeout s) (hruns : s.userRuns = true) (x : α) :
    Timed timeout (s.addItem x) := by
  obtain ⟨hentity, htimers, _, _, _⟩ := reports_addItem s.backlog x
  rw [Live.addItem]
  dsimp only
  split
  · refine ⟨fun hne => ?_, fun _ hempty => absurd hempty (by simp), fun hwalk => .inr ?_⟩
    · rw [htimers] at hne
      exact hentity.trans (h.timeout hne)
    · rcases userRuns_iff.mp hruns with hnone | hcallbacks
      · exact absurd hnone hwalk
      · rw [List.getLast?_cons_of_ne_nil hcallbacks]
        exact (h.outermost hwalk).resolve_left hcallbacks
  · exact h.call hruns hentity htimers

omit [DecidableEq α] in
theorem Timed.visit (h : Timed timeout s) {w : Walk α} (hwalk : s.walk = some w)
    (hempty : s.callbacks = []) : Timed timeout (s.visit w) := by
  have hrunning := h.walking (by simp [hwalk]) hempty
  obtain ⟨hentity, htimers, _, _, _⟩ := reports_visit s w
  refine ⟨fun _ => hentity.trans (h.timeout hrunning), fun _ _ => ?_, fun _ => ?_⟩
  · rwa [htimers]
  · change (if _ then s.callbacks else _) = [] ∨ _
    rw [Live.visit]
    dsimp only
    rw [hempty]
    split
    · exact .inl rfl
    · exact .inr rfl

/-- The outermost callback is still the outermost one when an inner one returns. -/
theorem outermost_tail {origin : Origin} {callbacks : List Origin}
    (h : origin :: callbacks = [] ∨ (origin :: callbacks).getLast? = some .onTimer) :
    callbacks = [] ∨ callbacks.getLast? = some .onTimer := by
  rcases h with hnone | hlast
  · cases hnone
  · by_cases hempty : callbacks = []
    · exact .inl hempty
    · rw [List.getLast?_cons_of_ne_nil hempty] at hlast
      exact .inr hlast

omit [DecidableEq α] in
theorem Timed.leave (h : Timed timeout s) (hleave : s.leave = some s') : Timed timeout s' := by
  rw [Live.leave] at hleave
  split at hleave
  · cases hleave
  · -- `add_item` returns.
    rename_i callbacks hcallbacks
    cases hleave
    refine ⟨h.timeout, fun hwalk hempty => ?_, fun hwalk => ?_⟩
    · rcases h.outermost hwalk with hnone | hlast
      · rw [hcallbacks] at hnone
        cases hnone
      · have hempty' : callbacks = [] := hempty
        rw [hcallbacks, hempty'] at hlast
        cases hlast
    · have houtermost := h.outermost hwalk
      rw [hcallbacks] at houtermost
      exact outermost_tail houtermost
  · -- The loop of `on_timer` goes on, unless the backlog was stopped.
    rename_i callbacks hcallbacks
    cases hleave
    refine ⟨h.timeout, fun hwalk _ => ?_, fun hwalk => ?_⟩
    · intro hstopped
      dsimp only at hwalk hstopped
      rw [hstopped] at hwalk
      exact hwalk rfl
    · have hwalk' : s.walk ≠ none := by
        intro hnone
        dsimp only at hwalk
        rw [hnone, ite_self] at hwalk
        exact hwalk rfl
      have houtermost := h.outermost hwalk'
      rw [hcallbacks] at houtermost
      exact outermost_tail houtermost

theorem Timed.step (h : Timed timeout s) (hstep : s.step e = some s') : Timed timeout s' := by
  cases step_cases hstep with
  | addItem x hruns _ => exact h.addItem hruns x
  | removeItem x hruns =>
      obtain ⟨hentity, htimers, _, _, _⟩ := reports_removeItem s.backlog x
      exact h.call hruns hentity htimers
  | stop hruns =>
      refine ⟨fun hne => absurd rfl hne, fun hwalk hempty => ?_, h.outermost⟩
      rcases userRuns_iff.mp hruns with hnone | hcallbacks
      · exact absurd hnone hwalk
      · exact absurd hempty hcallbacks
  | onTimer index _ houtside hstarted =>
      refine ⟨h.timeout, fun _ _ hstopped => ?_, fun _ => .inl houtside⟩
      dsimp only at hstopped
      rw [hstopped] at hstarted
      exact absurd hstarted (Nat.not_lt_zero _)
  | visit w hwalking houtside => exact h.visit hwalking houtside
  | leave hleft => exact h.leave hleft
  | advance clock itemTime _ => exact ⟨h.timeout, h.walking, h.outermost⟩

omit [DecidableEq α] in
theorem backlog_addItem (s : Live α) (x : α) :
    (s.addItem x).backlog = (BacklogWithTimeout.addItem ignoring s.backlog x).2 := by
  rw [Live.addItem]
  dsimp only
  split
  · rfl
  · rfl

omit [DecidableEq α] in
/-- A backlog that was stopped adds nothing. -/
theorem addItem_of_stopped (h : b.timers = []) (x : α) :
    (BacklogWithTimeout.addItem ignoring b x).2 = b := by
  rw [BacklogWithTimeout.addItem, h]
  split
  · rfl
  · rfl

theorem reported_removeItem (b : BacklogWithTimeout α) (x : α) :
    (BacklogWithTimeout.removeItem b x).2.reported = b.reported := by
  rw [BacklogWithTimeout.removeItem]
  split
  · rfl
  · rfl

omit [DecidableEq α] in
theorem leave_backlog (hleave : s.leave = some s') : s'.backlog = s.backlog := by
  rw [Live.leave] at hleave
  split at hleave <;> cases hleave <;> rfl

/-- The timers stay until `stop`. -/
theorem timers_step (hstep : s.step e = some s') :
    s'.backlog.timers = s.backlog.timers ∨ s'.backlog.timers = [] := by
  cases step_cases hstep with
  | addItem x _ _ =>
      rw [backlog_addItem]
      exact .inl (reports_addItem s.backlog x).timers
  | removeItem x _ => exact .inl (reports_removeItem s.backlog x).timers
  | stop _ => exact .inr rfl
  | onTimer index _ _ _ => exact .inl rfl
  | visit w _ _ => exact .inl (reports_visit s w).timers
  | leave hleft => exact .inl (by rw [leave_backlog hleft])
  | advance clock itemTime _ => exact .inl rfl

/-- The expired callback is called for an item whose time lies the timeout back, by the clock at
the call. -/
theorem Timed.reported (h : Timed timeout s) (hstep : s.step e = some s') :
    s'.backlog.reported = s.backlog.reported ∨
      ∃ x fromAddItem, timeout ≤ s.backlog.timeDiff x ∧
        s'.backlog.reported = s.backlog.reported ++
          [{ item := x, itemTime := s.backlog.itemTime x, reportedAt := s.backlog.clock,
             fromAddItem }] := by
  cases step_cases hstep with
  | addItem x _ _ =>
      rw [backlog_addItem]
      by_cases hstopped : s.backlog.timers = []
      · rw [addItem_of_stopped hstopped]
        exact .inl rfl
      · rw [← h.timeout hstopped]
        exact (reports_addItem s.backlog x).reported
  | removeItem x _ => exact .inl (reported_removeItem s.backlog x)
  | stop _ => exact .inl rfl
  | onTimer index _ _ _ => exact .inl rfl
  | visit w hwalking houtside =>
      rw [← h.timeout (h.walking (by simp [hwalking]) houtside)]
      exact (reports_visit s w).reported
  | leave hleft => exact .inl (by rw [leave_backlog hleft])
  | advance clock itemTime _ => exact .inl rfl

def KeepsTime (x : α) (itemTime : UInt64) : LiveCall α → Prop
  | .advance _ itemTimes => itemTimes x = itemTime
  | _ => True

/-- Time goes on, and the time of the item stays. -/
structure Steady (x : α) (itemTime : UInt64) (s : Live α) : Prop where
  kept : s.backlog.itemTime x = itemTime
  past : itemTime ≤ s.backlog.clock

theorem Steady.step (h : Steady x itemTime s) (hkeeps : KeepsTime x itemTime e)
    (hstep : s.step e = some s') : Steady x itemTime s' := by
  have hsame (hclock : s'.backlog.clock = s.backlog.clock)
      (htimes : s'.backlog.itemTime = s.backlog.itemTime) : Steady x itemTime s' :=
    ⟨by rw [htimes]; exact h.kept, by rw [hclock]; exact h.past⟩
  cases step_cases hstep with
  | addItem y _ _ =>
      have hreports := reports_addItem s.backlog y
      rw [← backlog_addItem] at hreports
      exact hsame hreports.clock hreports.itemTime
  | removeItem y _ =>
      have hreports := reports_removeItem s.backlog y
      exact hsame hreports.clock hreports.itemTime
  | stop _ => exact hsame rfl rfl
  | onTimer index _ _ _ => exact hsame rfl rfl
  | visit w _ _ =>
      have hreports := reports_visit s w
      exact hsame hreports.clock hreports.itemTime
  | leave hleft =>
      have hbacklog := leave_backlog hleft
      exact hsame (by rw [hbacklog]) (by rw [hbacklog])
  | advance clock itemTimes hlater => exact ⟨hkeeps, UInt64.le_trans h.past hlater⟩

/-- Since some point in time the item was not reported before it had expired. -/
def NotEarly (x : α) (itemTime : UInt64) (timeout : Nat) (before : List (Report α)) (s : Live α) :
    Prop :=
  ∃ since, s.backlog.reported = before ++ since ∧
    ∀ r ∈ since, r.item = x → itemTime.toNat + timeout ≤ r.reportedAt.toNat

theorem NotEarly.step {before : List (Report α)} (h : NotEarly x itemTime timeout.toNat before s)
    (htimed : Timed timeout s) (hsteady : Steady x itemTime s) (hstep : s.step e = some s') :
    NotEarly x itemTime timeout.toNat before s' := by
  obtain ⟨since, hreported, hall⟩ := h
  rcases htimed.reported hstep with hsame | ⟨y, fromAddItem, hexpired, hmore⟩
  · exact ⟨since, hsame.trans hreported, hall⟩
  · refine ⟨since ++ [_], by rw [hmore, hreported, List.append_assoc], fun r hr hitem => ?_⟩
    rcases List.mem_append.mp hr with hold | hnew
    · exact hall r hold hitem
    · obtain rfl := List.mem_singleton.mp hnew
      obtain rfl : y = x := hitem
      rw [timeDiff, hsteady.kept, UInt64.le_iff_toNat_le,
        UInt64.toNat_sub_of_le _ _ hsteady.past] at hexpired
      have hpast := UInt64.le_iff_toNat_le.mp hsteady.past
      dsimp only
      omega

/-- From the time on at which an item is added, it is not reported early. -/
theorem notEarly_of_exec (htimed : Timed timeout s) (hnow : s.backlog.itemTime x = s.backlog.clock)
    {es : List (LiveCall α)} (hkeeps : Along step (fun _ => KeepsTime x s.backlog.clock) s es)
    {t : Live α} (h : exec step s es = some t) :
    NotEarly x s.backlog.clock timeout.toNat s.backlog.reported t := by
  have hkeep (u : Live α) (e : LiveCall α) (v : Live α)
      (hu : Timed timeout u ∧ Steady x s.backlog.clock u ∧
        NotEarly x s.backlog.clock timeout.toNat s.backlog.reported u)
      (he : KeepsTime x s.backlog.clock e) (hstep : u.step e = some v) :
      Timed timeout v ∧ Steady x s.backlog.clock v ∧
        NotEarly x s.backlog.clock timeout.toNat s.backlog.reported v :=
    ⟨hu.1.step hstep, hu.2.1.step he hstep, hu.2.2.step hu.1 hu.2.1 hstep⟩
  have hstart : NotEarly x s.backlog.clock timeout.toNat s.backlog.reported s :=
    ⟨[], (List.append_nil _).symm, fun r hr => absurd hr List.not_mem_nil⟩
  exact (throughout_of_along (fun _ hu => hu.2.2) hkeep
    ⟨htimed, ⟨hnow, UInt64.le_refl _⟩, hstart⟩ hkeeps).last h

/-! ## The constructor -/

omit [DecidableEq α] in
theorem timed_create (backlog : BacklogWithTimeout α) :
    Timed backlog.entityTimeout { backlog : Live α } :=
  ⟨fun _ => rfl, fun hwalk => absurd rfl hwalk, fun hwalk => absurd rfl hwalk⟩

end Live

/-- The constructor with a `size_t` of `w` bits, in which the product wraps. -/
def createSized (w timeout : Nat) (clock : UInt64) (itemTime : α → UInt64) :
    BacklogWithTimeout α :=
  { create (UInt64.ofNat timeout) clock itemTime with
    entityTimeout := UInt64.ofNat (timeout * 1000000 % 2 ^ w) }

/-- With 64 bits it is the constructor of the other modules. -/
theorem createSized_64 (timeout : Nat) (clock : UInt64) (itemTime : α → UInt64) :
    createSized 64 timeout clock itemTime = create (UInt64.ofNat timeout) clock itemTime := by
  have hwrap : UInt64.ofNat (timeout * 1000000 % 2 ^ 64) = UInt64.ofNat timeout * 1000000 := by
    rw [← UInt64.toNat_inj]
    simp [UInt64.toNat_mul]
  rw [createSized, hwrap, create]

variable {w : Nat}

theorem toNat_entityTimeout_createSized (hw : w = 32 ∨ w = 64) (timeout : Nat) (clock : UInt64)
    (itemTime : α → UInt64) :
    (createSized w timeout clock itemTime).entityTimeout.toNat = timeout * 1000000 % 2 ^ w := by
  rw [createSized, UInt64.toNat_ofNat']
  rcases hw with rfl | rfl <;> omega

/-- In every run in which an item is added at its own time, the item is not reported before
`timeout` milliseconds have passed. -/
def NeverEarly [DecidableEq α] (w timeout : Nat) (x : α) : Prop :=
  ∀ (clock : UInt64) (itemTime : α → UInt64) (before after : List (LiveCall α)) (s t : Live α),
    exec Live.step { backlog := createSized w timeout clock itemTime } before = some s →
    s.backlog.itemTime x = s.backlog.clock →
    Along Live.step (fun _ => Live.KeepsTime x s.backlog.clock) s (.addItem x :: after) →
    exec Live.step s (.addItem x :: after) = some t →
    Live.NotEarly x s.backlog.clock (timeout * 1000000) s.backlog.reported t

variable {s : Live α} {x : α}

theorem Live.addItem_alive (hrunning : s.backlog.timers ≠ [])
    (hpast : ¬ s.backlog.clock < s.backlog.itemTime x)
    (halive : ¬ s.backlog.entityTimeout ≤ s.backlog.timeDiff x) :
    s.addItem x =
      Live.answer
        { s with
          backlog :=
            { s.backlog with items := push s.backlog.items (s.backlog.bucketFor x) x } }
        true := by
  have hsome : s.backlog.timers.isEmpty = false := by simpa using hrunning
  have hpushed : BacklogWithTimeout.addItem ignoring s.backlog x =
      (true, { s.backlog with items := push s.backlog.items (s.backlog.bucketFor x) x }) := by
    rw [BacklogWithTimeout.addItem, if_neg hpast, hsome, if_neg Bool.false_ne_true, if_neg halive]
  rw [Live.addItem, hpushed]
  exact if_neg fun h => halive h.2

theorem reported_addItem_expired {b : BacklogWithTimeout α} (hrunning : b.timers ≠ [])
    (hpast : ¬ b.clock < b.itemTime x) (hexpired : b.entityTimeout ≤ b.timeDiff x) :
    (addItem ignoring b x).2 = callExpired ignoring true b x := by
  have hsome : b.timers.isEmpty = false := by simpa using hrunning
  rw [addItem, if_neg hpast, hsome, if_neg Bool.false_ne_true, if_pos hexpired]

theorem Live.visit_expired {w : Walk α} (hnext : (bucket s.backlog.items w.index)[w.next]? = some x)
    (hexpired : s.backlog.entityTimeout ≤ s.backlog.timeDiff x) :
    (s.visit w).backlog = callExpired ignoring false s.backlog x := by
  rw [Live.visit]
  dsimp only
  rw [Reentrant.visit]
  dsimp only
  rw [hnext]
  dsimp only
  rw [if_pos hexpired]

/-- An item added at time zero can be reported as soon as `m_entity_timeout` has passed. -/
theorem exists_reported_at [DecidableEq α] (w timeout : Nat) (x : α) :
    let b := createSized w timeout 0 fun _ : α => 0
    ∃ after t, (∀ e ∈ LiveCall.addItem x :: after, Live.KeepsTime x 0 e) ∧
      exec Live.step { backlog := b } (.addItem x :: after) = some t ∧
      ∃ fromAddItem, t.backlog.reported =
        [{ item := x, itemTime := 0, reportedAt := b.entityTimeout, fromAddItem }] := by
  intro b
  have hrunning : b.timers ≠ [] := timeouts_ne_nil _
  have hpast : ¬ b.clock < b.itemTime x := UInt64.lt_irrefl 0
  have hstep :
      Live.step { backlog := b } (.addItem x) = some (Live.addItem { backlog := b } x) := by
    rw [Live.step, if_pos ⟨rfl, rfl⟩]
  by_cases hexpired : b.entityTimeout ≤ b.timeDiff x
  · -- The product has wrapped to zero.
    have hzero : b.entityTimeout = 0 := by
      rw [timeDiff, show b.clock - b.itemTime x = 0 from UInt64.sub_self _] at hexpired
      exact UInt64.le_antisymm hexpired UInt64.zero_le
    refine ⟨[], _, by simp [Live.KeepsTime], by rw [exec_cons_of_step hstep, exec], true, ?_⟩
    rw [Live.backlog_addItem, reported_addItem_expired hrunning hpast hexpired, hzero]
    rfl
  · have hindex : b.bucketFor x < b.timers.length := bucketIndexFromTime_lt hrunning _
    have hsized : b.items.length = b.timers.length := List.length_replicate
    have hempty : bucket b.items (b.bucketFor x) = [] := bucket_replicate_nil _ _
    let held : BacklogWithTimeout α := { b with items := push b.items (b.bucketFor x) x }
    have hheld : (bucket held.items (b.bucketFor x))[0]? = some x := by
      rw [bucket_push_self (Nat.lt_of_lt_of_eq hindex hsized.symm), hempty]
      rfl
    have hadd : Live.addItem { backlog := b } x = { backlog := held, results := [true] } :=
      Live.addItem_alive hrunning hpast hexpired
    let late : BacklogWithTimeout α := { held with clock := b.entityTimeout }
    have hlate : late.entityTimeout ≤ late.timeDiff x := by
      rw [timeDiff, show late.itemTime x = 0 from rfl, UInt64.sub_zero]
      exact UInt64.le_refl _
    have hadvance : Live.step { backlog := held, results := [true] }
        (.advance b.entityTimeout fun _ => 0) = some { backlog := late, results := [true] } := by
      rw [Live.step]
      exact if_pos UInt64.zero_le
    let walk : Walk α := { index := b.bucketFor x, next := 0, kept := [] }
    have htick : Live.step { backlog := late, results := [true] } (.onTimer (b.bucketFor x)) =
        some { backlog := late, walk, results := [true] } := by
      rw [Live.step]
      exact if_pos ⟨rfl, rfl, hindex⟩
    refine ⟨[.advance b.entityTimeout fun _ => 0, .onTimer (b.bucketFor x), .visit],
      Live.visit { backlog := late, walk, results := [true] } walk,
      by simp [Live.KeepsTime], ?_, false, ?_⟩
    · rw [exec_cons_of_step hstep, hadd, exec_cons_of_step hadvance, exec_cons_of_step htick,
        exec_cons_of_step rfl, exec]
    · rw [Live.visit_expired hheld hlate]
      rfl

theorem neverEarly_iff [DecidableEq α] (hw : w = 32 ∨ w = 64) (timeout : Nat) (x : α) :
    NeverEarly w timeout x ↔ timeout * 1000000 < 2 ^ w := by
  constructor
  · intro hnever
    obtain ⟨after, t, hkeeps, hexec, fromAddItem, hreported⟩ := exists_reported_at w timeout x
    obtain ⟨since, hsince, hall⟩ := hnever 0 (fun _ => 0) [] after _ t rfl rfl
      (along_of_forall hkeeps) hexec
    have hlast : since = _ := hsince.symm.trans hreported
    have hearly := Nat.le_trans (Nat.le_add_left _ _)
      (hall _ (by rw [hlast]; exact List.mem_singleton_self _) rfl)
    rw [toNat_entityTimeout_createSized hw] at hearly
    exact Nat.lt_of_le_of_lt hearly (Nat.mod_lt _ (Nat.two_pow_pos w))
  · intro hfits clock itemTime before after s t hbefore hnow hkeeps hafter
    have htimed : Live.Timed (createSized w timeout clock itemTime).entityTimeout s :=
      exec_invariant (fun _ _ _ h hstep => h.step hstep) (Live.timed_create _) hbefore
    have hearly := Live.notEarly_of_exec htimed hnow hkeeps hafter
    rwa [toNat_entityTimeout_createSized hw, Nat.mod_eq_of_lt hfits] at hearly

/-- Exactly for the timeouts whose product with 1000000 does not wrap in a `size_t`,
`m_entity_timeout` is the timeout in nanoseconds, and no item is reported early. -/
theorem entity_timeout_exact_iff [DecidableEq α] {w : Nat} (hw : w = 32 ∨ w = 64) (timeout : Nat)
    (x : α) :
    ((∀ (clock : UInt64) (itemTime : α → UInt64),
        (createSized w timeout clock itemTime).entityTimeout.toNat = timeout * 1000000) ↔
      timeout * 1000000 < 2 ^ w) ∧
    (NeverEarly w timeout x ↔ timeout * 1000000 < 2 ^ w) := by
  refine ⟨?_, neverEarly_iff hw timeout x⟩
  simp only [toNat_entityTimeout_createSized hw]
  constructor
  · intro hexact
    exact Nat.lt_of_le_of_lt (Nat.le_of_eq (hexact 0 fun _ => 0).symm)
      (Nat.mod_lt _ (Nat.two_pow_pos w))
  · exact fun hfits _ _ => Nat.mod_eq_of_lt hfits

/-- The largest timeout of a 32-bit system whose items are not reported early. -/
theorem entity_timeout_exact_iff_4294 : NeverEarly 32 4294 'x' ∧ ¬ NeverEarly 32 4295 'x' :=
  ⟨(entity_timeout_exact_iff (.inl rfl) 4294 'x').2.mpr (by decide),
    fun h => absurd ((entity_timeout_exact_iff (.inl rfl) 4295 'x').2.mp h) (by decide)⟩

/-- With a timeout of 4295 milliseconds on a 32-bit system the first tick of the timer of two
milliseconds reports an item that was added at the start. -/
theorem entity_timeout_wraps :
    (createSized 32 4295 0 fun _ : Char => 0).entityTimeout = 32704 ∧
    ((exec Live.step { backlog := createSized 32 4295 0 fun _ => 0 }
      [.addItem 'x', .advance 2000000 fun _ => 0, .onTimer 11, .visit]).map
        fun t => t.backlog.reported) =
      some [{ item := 'x', itemTime := 0, reportedAt := 2000000, fromAddItem := false }] ∧
    2000000 < 4295 * 1000000 ∧
    (createSized 32 4295 0 fun _ : Char => 0).timers[11]? = some 2 := by
  decide +kernel

end TarmIo.BacklogWithTimeout
