import Mathlib.Logic.Function.Basic

/-!
# Exact periodic timers

A family of timers on one clock. A timer is due at `next`, and time does not pass
a timer that is due: it first has to fire. The bounds on `next` are fields, so
they hold of every state the operations can build.
-/

namespace TarmIo.Foundation

structure PeriodicTimers (ι : Type*) (period : ι → Nat) where
  now : Nat
  next : ι → Nat
  now_le : ∀ i, now ≤ next i
  next_le : ∀ i, next i ≤ now + period i

namespace PeriodicTimers

variable {ι : Type*} {period : ι → Nat}

def start (period : ι → Nat) (now : Nat) : PeriodicTimers ι period where
  now := now
  next i := now + period i
  now_le i := Nat.le_add_right now (period i)
  next_le _ := Nat.le_refl _

/-- Let time pass, at most to the next instant at which a timer is due. -/
def advance (t : PeriodicTimers ι period) (now : Nat) (later : t.now ≤ now)
    (undue : ∀ i, now ≤ t.next i) : PeriodicTimers ι period where
  now := now
  next := t.next
  now_le := undue
  next_le i := Nat.le_trans (t.next_le i) (Nat.add_le_add_right later _)

def fire [DecidableEq ι] (t : PeriodicTimers ι period) (i : ι) (due : t.next i = t.now) :
    PeriodicTimers ι period where
  now := t.now
  next := Function.update t.next i (t.next i + period i)
  now_le j := by
    by_cases h : j = i
    · subst h
      rw [Function.update_self, due]
      exact Nat.le_add_right _ _
    · rw [Function.update_of_ne h]
      exact t.now_le j
  next_le j := by
    by_cases h : j = i
    · subst h
      have hnext : Function.update t.next j (t.next j + period j) j = t.now + period j := by
        rw [Function.update_self, due]
      exact Nat.le_of_eq hnext
    · rw [Function.update_of_ne h]
      exact t.next_le j

theorem fire_next_of_ne [DecidableEq ι] (t : PeriodicTimers ι period) {i j : ι}
    (due : t.next i = t.now) (h : j ≠ i) : (t.fire i due).next j = t.next j :=
  Function.update_of_ne h _ _

end PeriodicTimers

end TarmIo.Foundation
