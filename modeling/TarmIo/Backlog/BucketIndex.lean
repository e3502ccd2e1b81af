import Mathlib.Algebra.Order.Ring.Nat
import TarmIo.Backlog.BacklogWithTimeout

/-!
# The choice of a bucket

The constructor's timeouts are the halvings of the entity timeout `T`. For an item that
has not expired `bucket_index_from_time` picks a bucket whose period fits: waiting
for one whole period from now leaves the item at most one smallest period late.
-/

namespace TarmIo.BacklogWithTimeout

open Foundation

variable {α : Type*}

/-! ## The timeouts -/

theorem timeoutsLoop_succ_ne_nil (fuel : Nat) (c : UInt64) : timeoutsLoop (fuel + 1) c ≠ [] := by
  unfold timeoutsLoop
  exact List.cons_ne_nil _ _

theorem toNat_half (c : UInt64) : (c / 2).toNat = c.toNat / 2 := by
  rw [UInt64.toNat_div]
  rfl

/-- Timer `i` has the entity timeout halved `i` times. -/
theorem timeoutsLoop_getElem? {fuel i : Nat} {c t : UInt64}
    (h : (timeoutsLoop fuel c)[i]? = some t) : t.toNat = c.toNat / 2 ^ i := by
  induction fuel generalizing i c with
  | zero =>
      rw [timeoutsLoop, List.getElem?_nil] at h
      cases h
  | succ fuel ih =>
      unfold timeoutsLoop at h
      cases i with
      | zero =>
          cases h
          rw [Nat.pow_zero, Nat.div_one]
      | succ i =>
          rw [List.getElem?_cons_succ] at h
          split at h
          · rw [ih h, toNat_half, Nat.div_div_eq_div_mul, Nat.pow_succ, Nat.mul_comm]
          · rw [List.getElem?_nil] at h
            cases h

/-- The loop of the constructor ends by its own test: more rounds change nothing. -/
theorem timeoutsLoop_enough {fuel : Nat} {c : UInt64} (h : c.toNat < 2 ^ (fuel + 1)) (more : Nat) :
    timeoutsLoop (fuel + 1 + more) c = timeoutsLoop (fuel + 1) c := by
  induction fuel generalizing c with
  | zero =>
      have hhalf : ¬ 1 < c / 2 := by
        rw [UInt64.lt_iff_toNat_lt, toNat_half]
        change ¬ 1 < c.toNat / 2
        omega
      rw [Nat.add_comm, timeoutsLoop, timeoutsLoop, if_neg hhalf, if_neg hhalf]
  | succ fuel ih =>
      have hhalf : (c / 2).toNat < 2 ^ (fuel + 1) := by
        rw [toNat_half]
        rw [Nat.pow_succ] at h
        omega
      rw [Nat.add_right_comm, timeoutsLoop, timeoutsLoop, ih hhalf]

theorem timeouts_ne_nil (T : UInt64) : timeouts T ≠ [] :=
  timeoutsLoop_succ_ne_nil 63 T

theorem timeouts_headD (T : UInt64) : (timeouts T).headD 0 = T := rfl

theorem timeouts_le {T t : UInt64} (h : t ∈ timeouts T) : t.toNat ≤ T.toNat := by
  obtain ⟨i, hi⟩ := List.mem_iff_getElem?.mp h
  rw [timeoutsLoop_getElem? hi]
  exact Nat.div_le_self _ _

def period (T : UInt64) (i : Fin (timeouts T).length) : Nat :=
  ((timeouts T).get i).toNat * 1000000

def lastPeriod (T : UInt64) : Nat :=
  ((timeouts T).getLastD 0).toNat * 1000000

theorem period_eq (T : UInt64) (i : Fin (timeouts T).length) :
    period T i = T.toNat / 2 ^ i.val * 1000000 := by
  have hget : (timeouts T)[i.val]? = some ((timeouts T).get i) := by
    rw [List.get_eq_getElem, List.getElem?_eq_getElem]
  rw [period, timeoutsLoop_getElem? hget]

theorem lastPeriod_eq (T : UInt64) {i : Fin (timeouts T).length}
    (h : i.val = (timeouts T).length - 1) : period T i = lastPeriod T := by
  rw [period, lastPeriod, List.getLastD_eq_getLast?, List.getLast?_eq_getElem?, ← h,
    List.getElem?_eq_getElem i.isLt, Option.getD_some, List.get_eq_getElem]

/-! ## `bucket_index_from_time` -/

variable {T time : UInt64} {b : BacklogWithTimeout α}

theorem bucketIndexFromTime_lt (htimers : b.timers ≠ []) (time : UInt64) :
    b.bucketIndexFromTime time < b.timers.length := by
  have hpos : 0 < b.timers.length := List.length_pos_of_ne_nil htimers
  unfold bucketIndexFromTime
  split
  next => exact hpos
  next =>
      split
      next i hfind =>
          obtain ⟨hlt, _⟩ := List.findIdx?_eq_some_iff_getElem.mp hfind
          rw [List.length_drop] at hlt
          omega
      next => omega

/-- Bucket `i` ticks early enough for an item that has `time` left: after the period of the
bucket at most the entity timeout and a smallest period have gone by for the item. -/
def Fits (T time : UInt64) (i : Nat) : Prop :=
  ∃ h : i < (timeouts T).length,
    period T ⟨i, h⟩ + (T.toNat * 1000000 - time.toNat) ≤ T.toNat * 1000000 + lastPeriod T

theorem toNat_timeout_mul {T t : UInt64} (hT : T.toNat * 1000000 < 2 ^ 64)
    (h : t ∈ timeouts T) : (t * 1000000).toNat = t.toNat * 1000000 := by
  have hlt : t.toNat * 1000000 < 2 ^ 64 :=
    Nat.lt_of_le_of_lt (Nat.mul_le_mul_right 1000000 (timeouts_le h)) hT
  have hmillion : (1000000 : UInt64).toNat = 1000000 := by decide
  rw [UInt64.toNat_mul, hmillion, Nat.mod_eq_of_lt hlt]

theorem time_div_le (htime : time.toNat ≤ T.toNat * 1000000) : time / 1000000 ≤ T := by
  rw [UInt64.le_iff_toNat_le, UInt64.toNat_div]
  change time.toNat / 1000000 ≤ T.toNat
  omega

/-- The first test: at most a smallest period of the timeout has gone by. -/
theorem front_test (htime : time.toNat ≤ T.toNat * 1000000) :
    (timeouts T).headD 0 - time / 1000000 ≤ (timeouts T).getLastD 0 ↔
      T.toNat - time.toNat / 1000000 ≤ ((timeouts T).getLastD 0).toNat := by
  have hdiv : (time / 1000000).toNat = time.toNat / 1000000 := UInt64.toNat_div time 1000000
  rw [timeouts_headD, UInt64.le_iff_toNat_le, UInt64.toNat_sub_of_le _ _ (time_div_le htime), hdiv]

/-- Why bucket `i` is chosen for an item that has `time` left. -/
inductive Chosen (T time : UInt64) : Nat → Prop
  | first (h : T.toNat * 1000000 - time.toNat ≤ lastPeriod T) : Chosen T time 0
  | fitting {i : Nat} (hi : i + 1 < (timeouts T).length)
      (h : period T ⟨i + 1, hi⟩ ≤ time.toNat) : Chosen T time (i + 1)
  | last (h : time.toNat < lastPeriod T) : Chosen T time ((timeouts T).length - 1)

/-- When no bucket after the first is found, the smallest period is too long. With one bucket
only, the first test has succeeded. -/
theorem lt_lastPeriod (hT : T.toNat * 1000000 < 2 ^ 64)
    (hlate : ¬ T.toNat - time.toNat / 1000000 ≤ ((timeouts T).getLastD 0).toNat)
    (hfind : ((timeouts T).drop 1).findIdx? (fun timeout => timeout * 1000000 ≤ time) = none) :
    time.toNat < lastPeriod T := by
  obtain ⟨t, rest, ht⟩ := List.exists_cons_of_ne_nil (timeouts_ne_nil T)
  have hfront : t = T := by
    have hhead := timeouts_headD T
    rwa [ht, List.headD_cons] at hhead
  cases rest with
  | nil =>
      rw [ht, hfront] at hlate
      change ¬ T.toNat - time.toNat / 1000000 ≤ T.toNat at hlate
      omega
  | cons u rest =>
      have hlast : (timeouts T).getLastD 0 = (u :: rest).getLast (by simp) := by
        rw [ht]
        rfl
      have hmem : (timeouts T).getLastD 0 ∈ (timeouts T).drop 1 := by
        rw [hlast, ht]
        exact List.getLast_mem _
      have hlong := List.findIdx?_eq_none_iff.mp hfind _ hmem
      rwa [decide_eq_false_iff_not, UInt64.le_iff_toNat_le, Nat.not_le,
        toNat_timeout_mul hT (List.mem_of_mem_drop hmem)] at hlong

theorem bucketIndexFromTime_chosen (hT : T.toNat * 1000000 < 2 ^ 64)
    (htimers : b.timers = timeouts T) (htime : time.toNat ≤ T.toNat * 1000000) :
    Chosen T time (b.bucketIndexFromTime time) := by
  rw [bucketIndexFromTime, htimers]
  split
  next hfirst =>
      have hearly := (front_test htime).mp hfirst
      refine .first ?_
      rw [lastPeriod]
      omega
  next hlate =>
      rw [front_test htime] at hlate
      split
      next i hfind =>
          obtain ⟨hlt, hfits, _⟩ := List.findIdx?_eq_some_iff_getElem.mp hfind
          rw [List.length_drop] at hlt
          have hindex : i + 1 < (timeouts T).length := by omega
          rw [List.getElem_drop, decide_eq_true_iff, UInt64.le_iff_toNat_le,
            toNat_timeout_mul hT (List.getElem_mem _)] at hfits
          refine .fitting hindex ?_
          simpa only [period, List.get_eq_getElem, Nat.add_comm 1 i] using hfits
      next hfind => exact .last (lt_lastPeriod hT hlate hfind)

theorem Chosen.fits {i : Nat} (htime : time.toNat ≤ T.toNat * 1000000) (h : Chosen T time i) :
    Fits T time i := by
  have hpos : 0 < (timeouts T).length := List.length_pos_of_ne_nil (timeouts_ne_nil T)
  cases h with
  | first h =>
      refine ⟨hpos, ?_⟩
      rw [period_eq, Nat.pow_zero, Nat.div_one]
      omega
  | fitting hi h => exact ⟨hi, by omega⟩
  | last h =>
      refine ⟨by omega, ?_⟩
      rw [lastPeriod_eq T rfl]
      omega

theorem bucketIndexFromTime_fits (hT : T.toNat * 1000000 < 2 ^ 64) (htimers : b.timers = timeouts T)
    (htime : time.toNat ≤ T.toNat * 1000000) : Fits T time (b.bucketIndexFromTime time) :=
  (bucketIndexFromTime_chosen hT htimers htime).fits htime

/-- In a backlog as the constructor leaves it the choice of a bucket is computed without
wrapping, and the next tick of the bucket comes at most a smallest period after the time left. -/
theorem bucketIndexFromTime_sound {T clock time : UInt64} {itemTime : α → UInt64}
    {b : BacklogWithTimeout α} {i : Nat} (hT : T.toNat * 1000000 < 2 ^ 64)
    (htime : time.toNat ≤ T.toNat * 1000000) (hb : b = create T clock itemTime)
    (hindex : i = b.bucketIndexFromTime time) :
    (∀ j t, b.timers[j]? = some t → t.toNat = T.toNat / 2 ^ j) ∧
      time / 1000000 ≤ b.timers.headD 0 ∧
      (∀ t ∈ b.timers, (t * 1000000).toNat = t.toNat * 1000000) ∧
      b.items.length = b.timers.length ∧ i < b.items.length ∧
      (i = 0 ∧ T.toNat * 1000000 - time.toNat ≤ (b.timers.getLastD 0).toNat * 1000000 ∨
        1 ≤ i ∧ T.toNat / 2 ^ i * 1000000 ≤ time.toNat ∨
        i = b.items.length - 1 ∧ time.toNat < (b.timers.getLastD 0).toNat * 1000000) ∧
      T.toNat / 2 ^ i * 1000000 ≤ time.toNat + (b.timers.getLastD 0).toNat * 1000000 := by
  have htimers : b.timers = timeouts T := by rw [hb]; rfl
  have hlength : b.items.length = b.timers.length := by rw [hb]; exact List.length_replicate
  have hchosen : Chosen T time i := hindex ▸ bucketIndexFromTime_chosen hT htimers htime
  obtain ⟨hi, hfits⟩ := hchosen.fits htime
  have hsoon : period T ⟨i, hi⟩ ≤ time.toNat + lastPeriod T := by omega
  rw [period_eq] at hsoon
  rw [hlength, htimers, timeouts_headD, ← lastPeriod]
  refine ⟨fun j t => timeoutsLoop_getElem?, time_div_le htime, fun t => toNat_timeout_mul hT,
    rfl, hi, ?_, hsoon⟩
  clear hindex
  cases hchosen with
  | first h => exact .inl ⟨rfl, h⟩
  | fitting hi h =>
      rw [period_eq] at h
      exact .inr (.inl ⟨Nat.le_add_left 1 _, h⟩)
  | last h => exact .inr (.inr ⟨rfl, h⟩)

theorem bucketIndexFromTime_sound_seconds :
    (create 5000 0 (fun _ : Unit => 0)).bucketIndexFromTime 1500000000 = 2 ∧
      2 < (create 5000 0 (fun _ : Unit => 0)).items.length ∧
      5000 / 2 ^ 2 * 1000000 ≤ 1500000000 +
        ((create 5000 0 (fun _ : Unit => 0)).timers.getLastD 0).toNat * 1000000 := by
  have hindex : 2 = (create 5000 0 (fun _ : Unit => 0)).bucketIndexFromTime 1500000000 := by decide
  obtain ⟨_, _, _, _, hlt, _, hsoon⟩ :=
    bucketIndexFromTime_sound (T := 5000) (by decide) (by decide) rfl hindex
  exact ⟨hindex.symm, hlt, hsoon⟩

end TarmIo.BacklogWithTimeout
