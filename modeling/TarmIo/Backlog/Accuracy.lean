import TarmIo.Foundation.Execution
import TarmIo.Foundation.PeriodicTimers
import TarmIo.Backlog.BucketIndex
import TarmIo.Backlog.Conservation

/-!
# Accuracy of the backlog

A backlog driven by exact timers, with a user who adds, removes and updates items
between the ticks. Every item is in a bucket whose next tick comes no later than a
smallest period after the item expires, so items are reported on time, and none
is lost or reported twice.
-/

namespace TarmIo.BacklogWithTimeout

open Foundation

variable {α : Type*}

/-! ## Deadlines -/

variable {T : UInt64} {b : BacklogWithTimeout α}

variable {items : List (List α)} {x : α} {expired : ExpiredCallback α}

def deadline (T : UInt64) (b : BacklogWithTimeout α) (x : α) : Nat :=
  (b.itemTime x).toNat + T.toNat * 1000000 + lastPeriod T

/-- A report in time. An item that had expired before it was added is reported at once. -/
structure Prompt (T : UInt64) (r : Report α) : Prop where
  not_early : r.itemTime.toNat + T.toNat * 1000000 ≤ r.reportedAt.toNat
  not_late : r.fromAddItem = false →
    r.reportedAt.toNat ≤ r.itemTime.toNat + T.toNat * 1000000 + lastPeriod T

/-- What the constructor sets up and no call changes, for items that are not from the future. -/
structure Built (T : UInt64) (b : BacklogWithTimeout α) : Prop where
  entityTimeout : b.entityTimeout.toNat = T.toNat * 1000000
  timers : b.timers = timeouts T
  items_length : b.items.length = (timeouts T).length
  times : ∀ x, b.itemTime x ≤ b.clock

section

variable (h : Built T b)
include h

theorem Built.withItems (hlength : items.length = b.items.length) : Built T { b with items } :=
  ⟨h.entityTimeout, h.timers, hlength.trans h.items_length, h.times⟩

theorem Built.timers_ne_nil : b.timers ≠ [] := by
  rw [h.timers]
  exact timeouts_ne_nil T

theorem Built.timeDiff_toNat (x : α) :
    (b.timeDiff x).toNat = b.clock.toNat - (b.itemTime x).toNat :=
  UInt64.toNat_sub_of_le _ _ (h.times x)

theorem Built.time_le (x : α) : (b.itemTime x).toNat ≤ b.clock.toNat :=
  UInt64.le_iff_toNat_le.mp (h.times x)

theorem Built.expired_iff (x : α) :
    b.entityTimeout ≤ b.timeDiff x ↔
      (b.itemTime x).toNat + T.toNat * 1000000 ≤ b.clock.toNat := by
  have htime := h.time_le x
  rw [UInt64.le_iff_toNat_le, h.entityTimeout, h.timeDiff_toNat x]
  omega

/-- The bucket for an item that has not expired ticks before the item's deadline. -/
theorem Built.bucketFor_due (hT : T.toNat * 1000000 < 2 ^ 64)
    (halive : ¬ b.entityTimeout ≤ b.timeDiff x)
    (timers : PeriodicTimers (Fin (timeouts T).length) (period T))
    (hclock : b.clock.toNat = timers.now) :
    ∃ hi : b.bucketFor x < (timeouts T).length,
      timers.next ⟨b.bucketFor x, hi⟩ ≤ b.deadline T x := by
  have htime := h.time_le x
  have hdiff := h.timeDiff_toNat x
  have hentity := h.entityTimeout
  have hle : b.timeDiff x ≤ b.entityTimeout := by
    rw [UInt64.le_iff_toNat_le] at halive ⊢
    omega
  have hleft : (b.entityTimeout - b.timeDiff x).toNat =
      b.entityTimeout.toNat - (b.timeDiff x).toNat := UInt64.toNat_sub_of_le _ _ hle
  rw [UInt64.le_iff_toNat_le] at halive hle
  have hbound : (b.entityTimeout - b.timeDiff x).toNat ≤ T.toNat * 1000000 := by omega
  obtain ⟨hi, hfits⟩ : Fits T _ (b.bucketFor x) := bucketIndexFromTime_fits hT h.timers hbound
  refine ⟨hi, ?_⟩
  have hnext := timers.next_le ⟨b.bucketFor x, hi⟩
  unfold deadline
  omega

theorem Built.callExpired (hquiet : Quiet expired) (fromAddItem : Bool) (x : α) :
    Built T (callExpired expired fromAddItem b x) := by
  obtain ⟨times, hcall, _, hclock⟩ := callExpired_quiet hquiet fromAddItem b x
  rw [hcall]
  exact ⟨h.entityTimeout, h.timers, h.items_length, fun y => hclock y (h.times y)⟩

end

/-- The callback may only move deadlines further away. -/
theorem deadline_le_callExpired (hquiet : Quiet expired) (fromAddItem : Bool) (T : UInt64)
    (b : BacklogWithTimeout α) (x y : α) :
    b.deadline T y ≤ (callExpired expired fromAddItem b x).deadline T y := by
  obtain ⟨times, hcall, hgrow, _⟩ := callExpired_quiet hquiet fromAddItem b x
  have hle := UInt64.le_iff_toNat_le.mp (hgrow y)
  rw [hcall]
  exact Nat.add_le_add_right (Nat.add_le_add_right hle _) _

/-- An item pushed to a bucket that ticks before its deadline leaves all items due in time. -/
theorem due_push {n : Nat} {next : Fin n → Nat} {d : α → Nat} {target : Nat}
    (htarget : target < items.length) (hlt : target < n) (hbefore : next ⟨target, hlt⟩ ≤ d x)
    {i : Fin n} (hold : ∀ y ∈ bucket items i, next i ≤ d y) :
    ∀ y ∈ bucket (push items target x) i, next i ≤ d y := by
  intro y hy
  by_cases hit : i.val = target
  · subst hit
    rw [bucket_push_self htarget] at hy
    rcases List.mem_append.mp hy with hmem | hnew
    · exact hold y hmem
    · rw [List.mem_singleton.mp hnew]
      exact hbefore
  · rw [bucket_push_of_ne _ hit] at hy
    exact hold y hy

/-! ## The driven backlog -/

structure Driven (α : Type*) (T : UInt64) where
  timers : PeriodicTimers (Fin (timeouts T).length) (period T)
  backlog : BacklogWithTimeout α
  accepted : List α := []
  removed : List α := []

inductive DrivenEvent (α : Type*) (T : UInt64) where
  | advance (clock : UInt64)
  | tick (index : Fin (timeouts T).length)
  | add (item : α)
  | remove (item : α)
  | touch (item : α) (itemTime : UInt64)

namespace Driven

def start (T clock : UInt64) (itemTime : α → UInt64) : Driven α T where
  timers := PeriodicTimers.start (period T) clock.toNat
  backlog := create T clock itemTime

variable [DecidableEq α] {T : UInt64}

/-- Ticks that are due at the same instant may come in any order. An item that is held is not
added again. -/
def step (expired : ExpiredCallback α) (s : Driven α T) : DrivenEvent α T → Option (Driven α T)
  | .advance clock =>
      if h : s.timers.now ≤ clock.toNat ∧ ∀ i, clock.toNat ≤ s.timers.next i then
        some { s with
          timers := s.timers.advance clock.toNat h.1 h.2
          backlog := { s.backlog with clock } }
      else none
  | .tick index =>
      if h : s.timers.next index = s.timers.now then
        (onTimer expired ((bucket s.backlog.items index).length + 1) index s.backlog).map
          fun backlog => { s with timers := s.timers.fire index h, backlog }
      else none
  | .add x =>
      if x ∈ s.backlog.items.flatten then none
      else
        let r := addItem expired s.backlog x
        some { s with
          backlog := r.2
          accepted := if r.1 then s.accepted ++ [x] else s.accepted }
  | .remove x =>
      let r := removeItem s.backlog x
      some { s with
        backlog := r.2
        removed := if r.1 then s.removed ++ [x] else s.removed }
  | .touch x itemTime =>
      if s.backlog.itemTime x ≤ itemTime ∧ itemTime ≤ s.backlog.clock then
        some { s with
          backlog :=
            { s.backlog with itemTime := Function.update s.backlog.itemTime x itemTime } }
      else none

/-- The invariant. Field `due` carries the result: each held item is in a bucket that ticks
before the item's deadline. -/
structure Accurate (s : Driven α T) : Prop where
  built : Built T s.backlog
  clock : s.backlog.clock.toNat = s.timers.now
  due : ∀ (i : Fin (timeouts T).length), ∀ x ∈ bucket s.backlog.items i,
    s.timers.next i ≤ s.backlog.deadline T x
  prompt : ∀ r ∈ s.backlog.reported, Prompt T r
  balanced : Balanced s.accepted s.removed s.backlog.items s.backlog.reported

/-- The state inside a tick: bucket `index` is thought to hold what is kept so far and what is
still to be visited. -/
structure Sweeping (s : Driven α T) (index : Fin (timeouts T).length)
    (hdue : s.timers.next index = s.timers.now) (kept rest : List α)
    (b : BacklogWithTimeout α) : Prop where
  built : Built T b
  clock : b.clock.toNat = s.timers.now
  others : ∀ i ≠ index, ∀ x ∈ bucket b.items i.val,
    (s.timers.fire index hdue).next i ≤ b.deadline T x
  kept_due : ∀ x ∈ kept, (s.timers.fire index hdue).next index ≤ b.deadline T x
  waiting : ∀ x ∈ rest, s.timers.now ≤ b.deadline T x
  prompt : ∀ r ∈ b.reported, Prompt T r
  balanced : Balanced s.accepted s.removed (b.items.set index (kept ++ rest)) b.reported

section Tick

variable {s : Driven α T} {index : Fin (timeouts T).length}

  {hdue : s.timers.next index = s.timers.now} {kept rest : List α} {b : BacklogWithTimeout α}
  {x : α}

theorem Accurate.sweeping (h : Accurate s) (hdue : s.timers.next index = s.timers.now) :
    Sweeping s index hdue [] (bucket s.backlog.items index) s.backlog := by
  have hlt : index.val < s.backlog.items.length := by
    rw [h.built.items_length]
    exact index.isLt
  refine ⟨h.built, h.clock, ?_, nofun, ?_, h.prompt, ?_⟩
  · intro i hi x hx
    rw [PeriodicTimers.fire_next_of_ne _ hdue hi]
    exact h.due i x hx
  · intro x hx
    rw [← hdue]
    exact h.due index x hx
  · refine h.balanced.move fun y => ?_
    have hcount := count_flatten_set hlt (bucket s.backlog.items index) y
    rw [List.nil_append]
    omega

theorem Sweeping.index_lt (h : Sweeping s index hdue kept rest b) :
    index.val < b.items.length := by
  rw [h.built.items_length]
  exact index.isLt

theorem Sweeping.report (hquiet : Quiet expired) (h : Sweeping s index hdue kept (x :: rest) b)
    (hexpired : b.entityTimeout ≤ b.timeDiff x) :
    Sweeping s index hdue kept rest (BacklogWithTimeout.callExpired expired false b x) := by
  have hlater := deadline_le_callExpired hquiet false T b x
  have hnow := h.waiting x List.mem_cons_self
  refine ⟨h.built.callExpired hquiet false x, ?_, ?_, ?_, ?_, ?_, ?_⟩
  · rw [callExpired_clock hquiet]
    exact h.clock
  · rw [callExpired_items hquiet]
    intro i hi y hy
    exact Nat.le_trans (h.others i hi y hy) (hlater y)
  · intro y hy
    exact Nat.le_trans (h.kept_due y hy) (hlater y)
  · intro y hy
    exact Nat.le_trans (h.waiting y (List.mem_cons_of_mem x hy)) (hlater y)
  · intro r hr
    rw [callExpired_reported hquiet] at hr
    rcases List.mem_append.mp hr with hold | hnew
    · exact h.prompt r hold
    · cases List.mem_singleton.mp hnew
      refine ⟨(h.built.expired_iff x).mp hexpired, fun _ => ?_⟩
      rw [deadline, ← h.clock] at hnow
      exact hnow
  · rw [callExpired_items hquiet, callExpired_reported hquiet]
    exact h.balanced.report _ (count_leave h.index_lt kept rest x)

theorem Sweeping.move (hT : T.toNat * 1000000 < 2 ^ 64)
    (h : Sweeping s index hdue kept (x :: rest) b) (halive : ¬ b.entityTimeout ≤ b.timeDiff x)
    (hother : b.bucketFor x ≠ index.val) :
    Sweeping s index hdue kept rest { b with items := push b.items (b.bucketFor x) x } := by
  obtain ⟨hlt, hbefore⟩ :=
    h.built.bucketFor_due hT halive (s.timers.fire index hdue) h.clock
  have htarget : b.bucketFor x < b.items.length := by rwa [h.built.items_length]
  refine ⟨h.built.withItems (length_push _ _ _), h.clock, ?_, h.kept_due, ?_, h.prompt, ?_⟩
  · exact fun i hi => due_push htarget hlt hbefore (h.others i hi)
  · exact fun y hy => h.waiting y (List.mem_cons_of_mem x hy)
  · exact h.balanced.move (count_move h.index_lt htarget hother kept rest x)

theorem Sweeping.keep (hT : T.toNat * 1000000 < 2 ^ 64)
    (h : Sweeping s index hdue kept (x :: rest) b) (halive : ¬ b.entityTimeout ≤ b.timeDiff x)
    (hsame : b.bucketFor x = index.val) : Sweeping s index hdue (kept ++ [x]) rest b := by
  obtain ⟨hlt, hbefore⟩ :=
    h.built.bucketFor_due hT halive (s.timers.fire index hdue) h.clock
  have hfin : (⟨b.bucketFor x, hlt⟩ : Fin (timeouts T).length) = index := Fin.ext hsame
  rw [hfin] at hbefore
  refine ⟨h.built, h.clock, h.others, ?_, ?_, h.prompt, ?_⟩
  · intro y hy
    rcases List.mem_append.mp hy with hold | hnew
    · exact h.kept_due y hold
    · rw [List.mem_singleton.mp hnew]
      exact hbefore
  · exact fun y hy => h.waiting y (List.mem_cons_of_mem x hy)
  · rw [List.append_assoc, List.singleton_append]
    exact h.balanced

theorem Sweeping.accurate (h : Sweeping s index hdue kept [] b) :
    Accurate { s with
      timers := s.timers.fire index hdue
      backlog := { b with items := b.items.set index kept } } := by
  refine ⟨h.built.withItems List.length_set, h.clock, ?_, h.prompt, ?_⟩
  · intro i x hx
    by_cases hi : i = index
    · subst hi
      change x ∈ bucket (b.items.set i kept) i at hx
      rw [bucket_set_self h.index_lt] at hx
      exact h.kept_due x hx
    · change x ∈ bucket (b.items.set index kept) i at hx
      rw [bucket_set_of_ne _ (fun heq => hi (Fin.ext heq))] at hx
      exact h.others i hi x hx
  · have hall := h.balanced
    rw [List.append_nil] at hall
    exact hall

/-- A tick that is due is processed to its end and keeps the invariant. -/
theorem Accurate.tick (hquiet : Quiet expired) (hT : T.toNat * 1000000 < 2 ^ 64) (h : Accurate s)
    (hdue : s.timers.next index = s.timers.now) :
    ∃ s', step expired s (.tick index) = some s' ∧ Accurate s' := by
  obtain ⟨kept, b, hloop, hend⟩ :=
    @onTimerLoop_rule α expired hquiet index (Sweeping s index hdue)
      (fun _ _ _ _ hI hexpired => hI.report hquiet hexpired)
      (fun _ _ _ _ hI halive hother => hI.move hT halive hother)
      (fun _ _ _ _ hI halive hsame => hI.keep hT halive hsame)
      _ [] _ [] s.backlog (Nat.lt_succ_self _) (List.nil_append _).symm
      h.built.timers_ne_nil (h.sweeping hdue)
  refine ⟨_, ?_, hend.accurate⟩
  rw [step, dif_pos hdue, onTimer]
  rw [List.length_nil] at hloop
  rw [hloop, Option.map_some]

end Tick

/-! ## Every step -/

section Step

variable {s : Driven α T} {clock : UInt64}

section

variable (h : Accurate s)
include h

theorem Accurate.advance (hlater : s.timers.now ≤ clock.toNat)
    (hundue : ∀ i, clock.toNat ≤ s.timers.next i) :
    Accurate { s with
      timers := s.timers.advance clock.toNat hlater hundue
      backlog := { s.backlog with clock } } := by
  refine ⟨⟨h.built.entityTimeout, h.built.timers, h.built.items_length, ?_⟩, rfl, h.due,
    h.prompt, h.balanced⟩
  intro x
  rw [UInt64.le_iff_toNat_le]
  exact Nat.le_trans (h.built.time_le x) (Nat.le_trans (Nat.le_of_eq h.clock) hlater)

theorem Accurate.touch {itemTime : UInt64} (hgrow : s.backlog.itemTime x ≤ itemTime)
    (hclock : itemTime ≤ s.backlog.clock) :
    Accurate { s with
      backlog :=
        { s.backlog with itemTime := Function.update s.backlog.itemTime x itemTime } } := by
  refine ⟨⟨h.built.entityTimeout, h.built.timers, h.built.items_length, ?_⟩, h.clock, ?_,
    h.prompt, h.balanced⟩
  · intro y
    by_cases hy : y = x
    · subst hy
      simpa using hclock
    · simpa [Function.update_of_ne hy] using h.built.times y
  · intro i y hy
    refine Nat.le_trans (h.due i y hy) ?_
    refine Nat.add_le_add_right (Nat.add_le_add_right ?_ _) _
    rw [← UInt64.le_iff_toNat_le]
    by_cases hyx : y = x
    · subst hyx
      simpa using hgrow
    · simp [Function.update_of_ne hyx]

theorem Accurate.remove (x : α) :
    Accurate { s with
      backlog := (removeItem s.backlog x).2
      removed := if (removeItem s.backlog x).1 then s.removed ++ [x] else s.removed } := by
  unfold removeItem
  cases hfound : removeFrom x s.backlog.timers.length s.backlog.items with
  | none => exact ⟨h.built, h.clock, h.due, h.prompt, h.balanced⟩
  | some items =>
      refine ⟨h.built.withItems (removeFrom_length hfound), h.clock, ?_, h.prompt, ?_⟩
      · intro i y hy
        exact h.due i y (removeFrom_subset hfound i hy)
      · exact h.balanced.remove x (removeFrom_count hfound)

/-- An item that has expired is reported by `add_item` at once. -/
theorem Accurate.addItem_expired (hquiet : Quiet expired)
    (hexpired : s.backlog.entityTimeout ≤ s.backlog.timeDiff x) :
    addItem expired s.backlog x = (true, callExpired expired true s.backlog x) := by
  have hpast : ¬ s.backlog.clock < s.backlog.itemTime x := UInt64.not_lt.mpr (h.built.times x)
  have hrunning := h.built.timers_ne_nil
  rw [addItem, if_neg hpast, if_neg (by simpa using hrunning), if_pos hexpired]
  simp [callExpired_timers hquiet, hrunning]

theorem Accurate.addItem_alive (halive : ¬ s.backlog.entityTimeout ≤ s.backlog.timeDiff x) :
    addItem expired s.backlog x =
      (true, { s.backlog with
        items := push s.backlog.items (s.backlog.bucketFor x) x }) := by
  have hpast : ¬ s.backlog.clock < s.backlog.itemTime x := UInt64.not_lt.mpr (h.built.times x)
  have hrunning := h.built.timers_ne_nil
  rw [addItem, if_neg hpast, if_neg (by simpa using hrunning), if_neg halive]

theorem Accurate.add (hquiet : Quiet expired) (hT : T.toNat * 1000000 < 2 ^ 64)
    (hfresh : x ∉ s.backlog.items.flatten) :
    Accurate { s with
      backlog := (addItem expired s.backlog x).2
      accepted := if (addItem expired s.backlog x).1 then s.accepted ++ [x] else s.accepted } := by
  by_cases hexpired : s.backlog.entityTimeout ≤ s.backlog.timeDiff x
  · rw [h.addItem_expired hquiet hexpired]
    refine ⟨h.built.callExpired hquiet true x, ?_, ?_, ?_, ?_⟩
    · exact (congrArg UInt64.toNat (callExpired_clock hquiet true s.backlog x)).trans h.clock
    · intro i y hy
      change y ∈ bucket (callExpired expired true s.backlog x).items i at hy
      rw [callExpired_items hquiet] at hy
      exact Nat.le_trans (h.due i y hy) (deadline_le_callExpired hquiet true T s.backlog x y)
    · intro r hr
      change r ∈ (callExpired expired true s.backlog x).reported at hr
      rw [callExpired_reported hquiet] at hr
      rcases List.mem_append.mp hr with hold | hnew
      · exact h.prompt r hold
      · cases List.mem_singleton.mp hnew
        exact ⟨(h.built.expired_iff x).mp hexpired, nofun⟩
    · change Balanced (s.accepted ++ [x]) s.removed (callExpired expired true s.backlog x).items
        (callExpired expired true s.backlog x).reported
      rw [callExpired_items hquiet, callExpired_reported hquiet]
      exact h.balanced.acceptReported ⟨x, s.backlog.itemTime x, s.backlog.clock, true⟩
  · rw [h.addItem_alive hexpired]
    obtain ⟨hlt, hbefore⟩ := h.built.bucketFor_due hT hexpired s.timers h.clock
    have htarget : s.backlog.bucketFor x < s.backlog.items.length := by
      rwa [h.built.items_length]
    refine ⟨h.built.withItems (length_push _ _ _), h.clock, ?_, h.prompt, ?_⟩
    · exact fun i => due_push htarget hlt hbefore (h.due i)
    · exact h.balanced.accept hfresh (count_flatten_push htarget x)

end

theorem step_accurate (hquiet : Quiet expired) (hT : T.toNat * 1000000 < 2 ^ 64)
    (s : Driven α T) (e : DrivenEvent α T) (s' : Driven α T) (h : Accurate s)
    (hstep : step expired s e = some s') : Accurate s' := by
  cases e with
  | advance clock =>
      rw [step] at hstep
      split at hstep
      next hok =>
          cases hstep
          exact h.advance hok.1 hok.2
      next => cases hstep
  | tick index =>
      by_cases hdue : s.timers.next index = s.timers.now
      · obtain ⟨t, htick, ht⟩ := h.tick hquiet hT hdue
        rw [htick] at hstep
        cases hstep
        exact ht
      · rw [step, dif_neg hdue] at hstep
        cases hstep
  | add x =>
      rw [step] at hstep
      split at hstep
      next => cases hstep
      next hfresh =>
          cases hstep
          exact h.add hquiet hT hfresh
  | remove x =>
      cases hstep
      exact h.remove x
  | touch x itemTime =>
      rw [step] at hstep
      split at hstep
      next hok =>
          cases hstep
          exact h.touch hok.1 hok.2
      next => cases hstep

theorem start_accurate {itemTime : α → UInt64} (hT : T.toNat * 1000000 < 2 ^ 64)
    (htimes : ∀ x, itemTime x ≤ clock) : Accurate (start T clock itemTime) := by
  have hmillion : (1000000 : UInt64).toNat = 1000000 := by decide
  have hempty : (List.replicate (timeouts T).length ([] : List α)).flatten = [] :=
    List.flatten_replicate_nil
  refine ⟨⟨?_, rfl, List.length_replicate, htimes⟩, rfl, ?_, nofun, ?_⟩
  · change (T * 1000000).toNat = _
    rw [UInt64.toNat_mul, hmillion, Nat.mod_eq_of_lt hT]
  · intro i x hx
    change x ∈ bucket (List.replicate _ []) i at hx
    rw [bucket_replicate_nil] at hx
    cases hx
  · change Balanced [] [] (List.replicate _ []) []
    constructor <;> intro x <;> simp [hempty]

end Step

/-! ## Every run -/

variable {s : Driven α T}

def held (s : Driven α T) (x : α) : Nat :=
  s.backlog.items.flatten.count x

def timesReported (s : Driven α T) (x : α) : Nat :=
  (s.backlog.reported.map Report.item).count x

theorem Accurate.bucket_of_held (h : Accurate s) (hx : s.held x = 1) :
    ∃ i : Fin (timeouts T).length, x ∈ bucket s.backlog.items i ∧
      (∀ j : Fin (timeouts T).length, x ∈ bucket s.backlog.items j → j = i) ∧
      s.timers.next i ≤ s.backlog.deadline T x := by
  obtain ⟨i, hi, hunique⟩ := existsUnique_bucket hx
  have hlt : i < (timeouts T).length := by
    rw [← h.built.items_length]
    exact lt_length_of_mem hi
  exact ⟨⟨i, hlt⟩, hi, fun j hj => Fin.ext (hunique j hj), h.due ⟨i, hlt⟩ x hi⟩

theorem Accurate.not_held (h : Accurate s) (hx : s.backlog.deadline T x < s.timers.now) :
    s.held x = 0 := by
  by_contra hne
  have hsingle : s.held x ≤ 1 := h.balanced.single x
  obtain ⟨i, _, _, hdue⟩ := h.bucket_of_held (by omega : s.held x = 1)
  have hnow := s.timers.now_le i
  omega

/-- In every state that a run reaches:
an item accepted more often than removed or reported is in exactly one bucket, once, and the
next tick of that bucket is before the item's deadline;
an item whose deadline has passed was reported as often as it was accepted and not removed;
no report was early, and those of timers were not late;
a tick that is due is processed to its end;
and an item that has expired is reported by `add_item` itself. -/
theorem backlog_accurate {clock : UInt64} {itemTime : α → UInt64} {expired : ExpiredCallback α}
    {events : List (DrivenEvent α T)} {s : Driven α T} (hT : T.toNat * 1000000 < 2 ^ 64)
    (htimes : ∀ x, itemTime x ≤ clock) (hquiet : Quiet expired)
    (hrun : exec (step expired) (start T clock itemTime) events = some s) :
    (∀ x, s.accepted.count x = s.held x + s.removed.count x + s.timesReported x ∧
      s.held x ≤ 1) ∧
    (∀ x, s.removed.count x + s.timesReported x < s.accepted.count x →
      ∃ i : Fin (timeouts T).length, x ∈ bucket s.backlog.items i ∧
        (∀ j : Fin (timeouts T).length, x ∈ bucket s.backlog.items j → j = i) ∧
        s.timers.next i ≤
          (s.backlog.itemTime x).toNat + T.toNat * 1000000 + lastPeriod T) ∧
    (∀ x, (s.backlog.itemTime x).toNat + T.toNat * 1000000 + lastPeriod T < s.timers.now →
      s.accepted.count x = s.removed.count x + s.timesReported x) ∧
    (∀ r ∈ s.backlog.reported,
      r.itemTime.toNat + T.toNat * 1000000 ≤ r.reportedAt.toNat ∧
      (r.fromAddItem = false →
        r.reportedAt.toNat ≤ r.itemTime.toNat + T.toNat * 1000000 + lastPeriod T)) ∧
    (∀ i, s.timers.next i = s.timers.now → ∃ s', step expired s (.tick i) = some s') ∧
    ∀ x s', (s.backlog.itemTime x).toNat + T.toNat * 1000000 ≤ s.timers.now →
      step expired s (.add x) = some s' →
      s'.backlog.reported = s.backlog.reported ++
        [{ item := x, itemTime := s.backlog.itemTime x, reportedAt := s.backlog.clock,
           fromAddItem := true }] := by
  have h : Accurate s :=
    exec_invariant (step_accurate hquiet hT) (start_accurate hT htimes) hrun
  have hcount : ∀ x, s.accepted.count x = s.held x + s.removed.count x + s.timesReported x :=
    h.balanced.conserved
  have hsingle : ∀ x, s.held x ≤ 1 := h.balanced.single
  refine ⟨fun x => ⟨hcount x, hsingle x⟩, ?_, ?_, ?_, ?_, ?_⟩
  · intro x hx
    have hone := hcount x
    have hle := hsingle x
    exact h.bucket_of_held (by omega)
  · intro x hx
    have hnone := h.not_held hx
    have hall := hcount x
    omega
  · exact fun r hr => ⟨(h.prompt r hr).not_early, (h.prompt r hr).not_late⟩
  · intro i hdue
    obtain ⟨s', htick, _⟩ := h.tick hquiet hT hdue
    exact ⟨s', htick⟩
  · intro x s' hexpired hadd
    rw [← h.clock, ← h.built.expired_iff] at hexpired
    rw [step] at hadd
    split at hadd
    next => cases hadd
    next =>
        cases hadd
        rw [h.addItem_expired hquiet hexpired]
        exact callExpired_reported hquiet true s.backlog x

/-- A timeout of 4 ms: an item added at 0 is updated at 2 ms to the time 1 ms, moves to the
bucket of 2 ms at 4 ms and is reported at 6 ms, within its deadline of 7 ms. -/
def updatedRun : List (DrivenEvent Nat 4) :=
  [.add 7, .advance 2000000, .tick ⟨1, by decide⟩, .touch 7 1000000, .advance 4000000,
    .tick ⟨1, by decide⟩, .tick ⟨0, by decide⟩, .advance 6000000, .tick ⟨1, by decide⟩]

def ignore : ExpiredCallback Nat := fun b _ => b

theorem ignore_quiet : Quiet ignore :=
  fun b _ => ⟨b.itemTime, rfl, fun _ => UInt64.le_refl _, fun _ h => h⟩

theorem backlog_accurate_updatedRun :
    ∃ s, exec (step ignore) (start 4 0 fun _ => 0) updatedRun = some s ∧
      s.backlog.reported = [⟨7, 1000000, 6000000, false⟩] ∧
      s.accepted.count 7 = s.held 7 + s.removed.count 7 + s.timesReported 7 := by
  have hruns : (exec (step ignore) (start 4 0 fun _ => 0) updatedRun).map
      (fun s => s.backlog.reported) = some [⟨7, 1000000, 6000000, false⟩] := by
    decide +kernel
  obtain ⟨s, hrun, hreported⟩ := Option.map_eq_some_iff.mp hruns
  have hall := backlog_accurate (by decide) (fun _ => UInt64.le_refl _) ignore_quiet hrun
  exact ⟨s, hrun, hreported, (hall.1 7).1⟩

end Driven

end TarmIo.BacklogWithTimeout
