import Mathlib.Algebra.Order.Ring.Nat
import Mathlib.Order.Nat

/-!
# Doubling and bisection

Two loops that look for the place where a property of numbers changes. The property is known only
through a test, which may change a state; the contract of the test says what it answers for the
numbers in an interval and what it keeps of the state.
-/

namespace TarmIo.Foundation

variable {σ : Type*}

/-- For numbers in the interval the test answers whether they have the property, and it keeps an
invariant. -/
def Probes (test : σ → Nat → Bool × σ) (I : σ → Prop) (P : Nat → Prop) (lower upper : Nat) : Prop :=
  ∀ s v, lower ≤ v → v ≤ upper → I s → ((test s v).1 = true ↔ P v) ∧ I (test s v).2

section

variable {test : σ → Nat → Bool × σ} {I : σ → Prop} {P : Nat → Prop} {lower upper : Nat}

theorem Probes.mono {l u : Nat} (h : Probes test I P lower upper) (hl : lower ≤ l)
    (hu : u ≤ upper) : Probes test I P l u := fun s v hlv hvu =>
  h s v (Nat.le_trans hl hlv) (Nat.le_trans hvu hu)

def doubleWhile (test : σ → Nat → Bool × σ) : Nat → σ → Nat → Option (Nat × σ)
  | 0, _, _ => none
  | fuel + 1, s, v =>
      if (test s v).1 then doubleWhile test fuel (test s v).2 (v * 2) else some (v, (test s v).2)

/-- Doubling ends at the first number without the property. -/
theorem doubleWhile_spec (h : Probes test I P 0 upper) (hdouble : ∀ v, P v → v * 2 ≤ upper)
    {s : σ} (hs : I s) {v fuel : Nat} (hpos : 1 ≤ v) (hv : v ≤ upper) (hfuel : upper < v + fuel) :
    ∃ j s', doubleWhile test fuel s v = some (v * 2 ^ j, s') ∧ I s' ∧ v * 2 ^ j ≤ upper ∧
      ¬ P (v * 2 ^ j) ∧ ∀ i < j, P (v * 2 ^ i) := by
  induction fuel generalizing s v with
  | zero => omega
  | succ fuel ih =>
      obtain ⟨hanswer, hkeep⟩ := h s v (Nat.zero_le v) hv hs
      rw [doubleWhile]
      by_cases hP : P v
      · obtain ⟨j, s', hrun, hs', hle, hnot, hbefore⟩ :=
          ih hkeep (by omega) (hdouble v hP) (by omega)
        have hpow (i : Nat) : v * 2 * 2 ^ i = v * 2 ^ (i + 1) := by
          rw [Nat.mul_assoc, Nat.pow_succ']
        rw [if_pos (hanswer.mpr hP), hrun]
        rw [hpow] at hle hnot ⊢
        refine ⟨j + 1, s', rfl, hs', hle, hnot, fun i hi => ?_⟩
        cases i with
        | zero => rwa [Nat.pow_zero, Nat.mul_one]
        | succ i => exact hpow i ▸ hbefore i (by omega)
      · rw [if_neg fun htrue => hP (hanswer.mp htrue)]
        refine ⟨0, _, by rw [Nat.pow_zero, Nat.mul_one], hkeep, ?_, ?_, fun i hi => by omega⟩
        · rwa [Nat.pow_zero, Nat.mul_one]
        · rwa [Nat.pow_zero, Nat.mul_one]

theorem exists_first_double (limit : Nat) {v : Nat} (hv : 1 ≤ v) :
    ∃ k, limit ≤ v * 2 ^ k ∧ ∀ j < k, v * 2 ^ j < limit := by
  have hexists : ∃ k, limit ≤ v * 2 ^ k := by
    refine ⟨limit, Nat.le_trans (Nat.le_of_lt Nat.lt_two_pow_self) ?_⟩
    exact Nat.le_mul_of_pos_left _ hv
  exact ⟨Nat.find hexists, Nat.find_spec hexists,
    fun j hj => Nat.lt_of_not_le (Nat.find_min hexists hj)⟩

/-- The loop moves the upper bound to the middle if the test succeeds there, and else the lower
one. -/
def bisect (test : σ → Nat → Bool × σ) : Nat → σ → Nat → Nat → Option ((Nat × Nat) × σ)
  | 0, _, _, _ => none
  | fuel + 1, s, lower, upper =>
      if lower + 1 < upper then
        let middle := (upper + lower) / 2
        if (test s middle).1 then bisect test fuel (test s middle).2 lower middle
        else bisect test fuel (test s middle).2 middle upper
      else some ((lower, upper), s)

theorem bisect_stop (h : ¬ lower + 1 < upper) (fuel : Nat) (s : σ) :
    bisect test (fuel + 1) s lower upper = some ((lower, upper), s) := by
  rw [bisect, if_neg h]

/-- Bisection ends at the least number with the property, or at the upper bound if there is none
before it. -/
theorem bisect_spec {t : Nat} (h : Probes test I (t ≤ ·) lower upper) {s : σ} (hs : I s)
    (hlower : lower < t) (hlt : lower < upper) {fuel : Nat} (hfuel : upper ≤ lower + fuel) :
    ∃ s', bisect test fuel s lower upper = some ((min t upper - 1, min t upper), s') ∧ I s' := by
  induction fuel generalizing s lower upper with
  | zero => omega
  | succ fuel ih =>
      by_cases hmore : lower + 1 < upper
      · have hmiddle : lower < (upper + lower) / 2 ∧ (upper + lower) / 2 < upper := by omega
        rw [bisect, if_pos hmore]
        dsimp only
        generalize (upper + lower) / 2 = middle at hmiddle ⊢
        obtain ⟨hanswer, hkeep⟩ := h s middle (by omega) (by omega) hs
        by_cases ht : t ≤ middle
        · rw [if_pos (hanswer.mpr ht)]
          have hmin : min t upper = min t middle := by omega
          rw [hmin]
          exact ih (h.mono (Nat.le_refl _) (by omega)) hkeep hlower hmiddle.1 (by omega)
        · rw [if_neg fun htrue => ht (hanswer.mp htrue)]
          exact ih (h.mono (by omega) (Nat.le_refl _)) hkeep (by omega) hmiddle.2 (by omega)
      · rw [bisect_stop hmore]
        have hmin : min t upper = lower + 1 := by omega
        rw [hmin, Nat.add_sub_cancel, show upper = lower + 1 by omega]
        exact ⟨s, rfl, hs⟩

end

end TarmIo.Foundation
