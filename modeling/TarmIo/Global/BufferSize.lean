import Mathlib.Algebra.Order.Ring.Int
import TarmIo.Foundation.Bisection

/-!
# The limits of buffer sizes

`global/Configuration.cpp` finds the smallest and the largest buffer size that the system grants by
setting sizes and reading them back. `int` has 32 bits and `std::size_t` has 64. The state of the
handle is any type, and `tested` records the sizes that are tested.
-/

namespace TarmIo.Global

open Foundation

/-- What `accessor_function(handle, &value)` returns, the value after the call and the handle. -/
structure Accessed (σ : Type*) where
  error : Int
  value : Int
  handle : σ

/-- `size_multiplier` is two on Linux and one elsewhere. `handle` is bound by
`init_handle_for_buffer_size`. -/
structure Platform (σ : Type*) where
  accessor : σ → Int → Accessed σ
  sizeMultiplier : Nat
  handle : σ

structure Search (σ : Type*) where
  handle : σ
  tested : List Nat := []

inductive BufferSizeSearchDirection
  | min
  | max
deriving DecidableEq

def intMax : Nat := 2 ^ 31 - 1

def toInt (size : Nat) : Int := (size : Int).bmod (2 ^ 32)

/-- An `int` where a `std::size_t` is expected. -/
def toSize (value : Int) : Nat := (value % 2 ^ 64).toNat

section

variable {σ : Type*}

def isBufferSizeAvailable (p : Platform σ) (s : Search σ) (size : Nat) : Bool × Search σ :=
  let s := { s with tested := s.tested ++ [size] }
  if size = 0 then (false, s)
  else
    let set := p.accessor s.handle (toInt size)
    if set.error ≠ 0 then (false, { s with handle := set.handle })
    else
      let get := p.accessor set.handle 0
      (get.error = 0 ∧ toSize get.value = toSize set.value * p.sizeMultiplier % 2 ^ 64,
        { s with handle := get.handle })

/-- The function returns zero also after an error. -/
def initHandleForBufferSize (p : Platform σ) : Int × Search σ := (0, { handle := p.handle })

def boundLoop (p : Platform σ) (direction : BufferSizeSearchDirection) :
    Nat → Search σ → Nat → Nat → Option ((Nat × Nat) × Search σ)
  | 0, _, _, _ => none
  | fuel + 1, s, lowerBound, upperBound =>
      let valueToTest := (upperBound + lowerBound) % 2 ^ 64 / 2
      if (lowerBound + 1) % 2 ^ 64 < upperBound then
        let available := isBufferSizeAvailable p s valueToTest
        if available.1 then
          if direction = .min then boundLoop p direction fuel available.2 lowerBound valueToTest
          else boundLoop p direction fuel available.2 valueToTest upperBound
        else
          if direction = .min then boundLoop p direction fuel available.2 valueToTest upperBound
          else boundLoop p direction fuel available.2 lowerBound valueToTest
      else some ((lowerBound, upperBound), s)

def boundBufferSize (p : Platform σ) (fuel : Nat) (s : Search σ) (lowerBound upperBound : Nat)
    (direction : BufferSizeSearchDirection) : Option (Nat × Search σ) :=
  match boundLoop p direction fuel s lowerBound upperBound with
  | none => none
  | some ((lowerBound, upperBound), s) =>
      if direction = .min then
        let available := isBufferSizeAvailable p s lowerBound
        some (if available.1 then lowerBound else upperBound, available.2)
      else
        let available := isBufferSizeAvailable p s upperBound
        some (if available.1 then upperBound else lowerBound, available.2)

def minBufferSize (p : Platform σ) (fuel defaultValue : Nat) : Option (Nat × Search σ) :=
  let (initError, s) := initHandleForBufferSize p
  if initError ≠ 0 then some (0, s) else boundBufferSize p fuel s 0 defaultValue .min

def doubleLoop (p : Platform σ) (upperLimit : Nat) :
    Nat → Search σ → Nat → Option (Nat × Search σ)
  | 0, _, _ => none
  | fuel + 1, s, upperBound =>
      let available := isBufferSizeAvailable p s upperBound
      if available.1 ∧ upperBound < upperLimit then
        doubleLoop p upperLimit fuel available.2 (upperBound * 2 % 2 ^ 64)
      else some (upperBound, available.2)

def maxBufferSize (p : Platform σ) (fuel defaultValue : Nat) : Option (Nat × Search σ) :=
  let (initError, s) := initHandleForBufferSize p
  if initError ≠ 0 then some (0, s)
  else
    match doubleLoop p (intMax / 2) fuel s defaultValue with
    | none => none
    | some (upperBound, s) => boundBufferSize p fuel s defaultValue upperBound .max

/-! ## Sizes that are granted -/

/-- The system grants the sizes from `m` to `M`, as far as an `int` can tell. -/
def Grants (p : Platform σ) (m M : Nat) : Prop :=
  ∀ s size, size ≤ intMax → ((isBufferSizeAvailable p s size).1 = true ↔ m ≤ size ∧ size ≤ M)

def Search.InRange (s : Search σ) : Prop := ∀ size ∈ s.tested, size ≤ intMax

theorem toInt_of_le {size : Nat} (h : size ≤ intMax) : toInt size = size := by
  have hmax : intMax < 2 ^ 31 := by decide
  exact Int.bmod_eq_of_le_mul_two (by omega) (by omega)

theorem tested_isBufferSizeAvailable (p : Platform σ) (s : Search σ) (size : Nat) :
    (isBufferSizeAvailable p s size).2.tested = s.tested ++ [size] := by
  unfold isBufferSizeAvailable
  dsimp only
  split
  · rfl
  · split <;> rfl

theorem Search.InRange.isBufferSizeAvailable {s : Search σ} (h : s.InRange) (p : Platform σ)
    {size : Nat} (hsize : size ≤ intMax) : (isBufferSizeAvailable p s size).2.InRange := by
  rw [InRange, tested_isBufferSizeAvailable]
  intro v hv
  rcases List.mem_append.mp hv with hold | hnew
  · exact h v hold
  · rwa [List.mem_singleton.mp hnew]

/-! ## The loops -/

/-- The test of the bisection moves the upper bound down if it succeeds. -/
def movesUpper (p : Platform σ) (direction : BufferSizeSearchDirection) (s : Search σ)
    (size : Nat) : Bool × Search σ :=
  let available := isBufferSizeAvailable p s size
  (available.1 = decide (direction = .min), available.2)

theorem boundLoop_eq_bisect (p : Platform σ) (direction : BufferSizeSearchDirection) (fuel : Nat)
    (s : Search σ) {lower upper : Nat} (hlower : lower ≤ upper) (hupper : upper ≤ intMax) :
    boundLoop p direction fuel s lower upper =
      bisect (movesUpper p direction) fuel s lower upper := by
  induction fuel generalizing s lower upper with
  | zero => rfl
  | succ fuel ih =>
      have hmax : intMax < 2 ^ 31 := by decide
      rw [boundLoop, bisect, Nat.mod_eq_of_lt (by omega : upper + lower < 2 ^ 64),
        Nat.mod_eq_of_lt (by omega : lower + 1 < 2 ^ 64)]
      dsimp only [movesUpper]
      split
      · rw [ih _ (by omega) (by omega), ih _ (by omega) hupper]
        by_cases havailable : (isBufferSizeAvailable p s ((upper + lower) / 2)).1 = true
        · cases direction <;> simp [havailable]
        · cases direction <;> simp [havailable]
      · rfl

def grows (p : Platform σ) (upperLimit : Nat) (s : Search σ) (size : Nat) : Bool × Search σ :=
  let available := isBufferSizeAvailable p s size
  (available.1 ∧ size < upperLimit, available.2)

theorem doubleLoop_eq_doubleWhile (p : Platform σ) {upperLimit : Nat} (hlimit : upperLimit ≤ 2 ^ 63)
    (fuel : Nat) (s : Search σ) (upper : Nat) :
    doubleLoop p upperLimit fuel s upper = doubleWhile (grows p upperLimit) fuel s upper := by
  induction fuel generalizing s upper with
  | zero => rfl
  | succ fuel ih =>
      rw [doubleLoop, doubleWhile]
      dsimp only [grows]
      simp only [decide_eq_true_eq]
      split
      · rename_i hmore
        rw [Nat.mod_eq_of_lt (by omega), ih]
      · rfl

end

section

variable {σ : Type*} {p : Platform σ} {m M : Nat} (hp : Grants p m M)
include hp

theorem Grants.probes_min : Probes (movesUpper p .min) Search.InRange (m ≤ ·) 0 (min M intMax) := by
  intro s size _ hsize hs
  have hgrant := hp s size (by omega)
  refine ⟨?_, hs.isBufferSizeAvailable p (by omega)⟩
  dsimp only [movesUpper]
  simp only [decide_true, decide_eq_true_eq, hgrant]
  omega

theorem Grants.probes_max : Probes (movesUpper p .max) Search.InRange (M + 1 ≤ ·) m intMax := by
  intro s size hm hsize hs
  have hgrant := hp s size hsize
  refine ⟨?_, hs.isBufferSizeAvailable p hsize⟩
  dsimp only [movesUpper]
  by_cases havailable : (isBufferSizeAvailable p s size).1 = true
  · have hgranted := hgrant.mp havailable
    simp [havailable]
    omega
  · have hrefused : ¬ (m ≤ size ∧ size ≤ M) := fun h => havailable (hgrant.mpr h)
    simp [havailable]
    omega

theorem Grants.probes_grows : Probes (grows p (intMax / 2)) Search.InRange
    (fun size => (m ≤ size ∧ size ≤ M) ∧ size < intMax / 2) 0 intMax := by
  intro s size _ hsize hs
  have hgrant := hp s size hsize
  refine ⟨?_, hs.isBufferSizeAvailable p hsize⟩
  dsimp only [grows]
  rw [decide_eq_true_iff, hgrant]

variable (hm : 1 ≤ m) {D : Nat} (hD : m ≤ D) (hM : D ≤ M) (hlimit : D ≤ intMax / 2)
include hm hD hM hlimit

theorem Grants.minBufferSize {fuel : Nat} (hfuel : D ≤ fuel) :
    ∃ s, Global.minBufferSize p fuel D = some (m, s) ∧ s.InRange := by
  have hinit : (initHandleForBufferSize p).2.InRange := fun size hsize => by cases hsize
  obtain ⟨s, hbisect, hs⟩ := bisect_spec (hp.probes_min.mono (Nat.le_refl 0) (u := D) (by omega))
    hinit (by omega) (by omega) (by omega : D ≤ 0 + fuel)
  rw [Nat.min_eq_left hD] at hbisect
  have hrefused : ¬ (isBufferSizeAvailable p s (m - 1)).1 = true := fun h => by
    have hgranted := (hp s (m - 1) (by omega)).mp h
    omega
  refine ⟨_, ?_, hs.isBufferSizeAvailable p (by omega : m - 1 ≤ intMax)⟩
  rw [Global.minBufferSize]
  dsimp only [initHandleForBufferSize] at hbisect ⊢
  rw [if_neg (by simp), boundBufferSize, boundLoop_eq_bisect _ _ _ _ (Nat.zero_le D) (by omega),
    hbisect]
  dsimp only
  rw [if_pos rfl, if_neg hrefused]

omit hlimit in
/-- The search for the maximum, from the upper bound that the doubling has found. -/
theorem Grants.boundBufferSize_max {fuel upper : Nat} {s : Search σ} (hs : s.InRange)
    (hle : D ≤ upper) (hupper : upper ≤ intMax) (hfuel : upper < fuel) :
    ∃ s', boundBufferSize p fuel s D upper .max = some (min M upper, s') ∧ s'.InRange := by
  rw [boundBufferSize, boundLoop_eq_bisect _ _ _ _ hle hupper]
  rcases Nat.lt_or_eq_of_le hle with hlt | rfl
  · obtain ⟨s', hbisect, hs'⟩ := bisect_spec (hp.probes_max.mono hD hupper) hs (by omega) hlt
      (by omega : upper ≤ D + fuel)
    have hgrant := hp s' (min (M + 1) upper) (by omega)
    refine ⟨_, ?_, hs'.isBufferSizeAvailable p (by omega : min (M + 1) upper ≤ intMax)⟩
    rw [hbisect]
    dsimp only
    rw [if_neg (by decide)]
    congr 2
    -- The upper bound is granted only if every size up to it is.
    split
    · rename_i havailable
      have hgranted := hgrant.mp havailable
      omega
    · rename_i hrefused
      rw [hgrant] at hrefused
      omega
  · obtain ⟨fuel, rfl⟩ := Nat.exists_eq_succ_of_ne_zero (by omega : fuel ≠ 0)
    refine ⟨_, ?_, hs.isBufferSizeAvailable p hupper⟩
    rw [bisect_stop (by omega)]
    dsimp only
    rw [if_neg (by decide), if_pos ((hp s D hupper).mpr ⟨hD, hM⟩), Nat.min_eq_right hM]

theorem Grants.maxBufferSize {fuel : Nat} (hfuel : intMax < fuel) :
    ∃ k s, (intMax / 2 ≤ D * 2 ^ k ∧ ∀ j < k, D * 2 ^ j < intMax / 2) ∧
      Global.maxBufferSize p fuel D = some (min M (D * 2 ^ k), s) ∧ s.InRange := by
  have hinit : (initHandleForBufferSize p).2.InRange := fun size hsize => by cases hsize
  obtain ⟨j, s, hdouble, hs, hupper, hend, hbefore⟩ := doubleWhile_spec hp.probes_grows
    (fun size h => by omega) hinit (by omega : 1 ≤ D) (by omega) (by omega : intMax < D + fuel)
  obtain ⟨k, hk, hfirst⟩ := exists_first_double (intMax / 2) (by omega : 1 ≤ D)
  have hjk : j ≤ k := Nat.le_of_not_lt fun hlt => by
    have hsmall := (hbefore k hlt).2
    omega
  have hle : D * 2 ^ j ≤ D * 2 ^ k := Nat.mul_le_mul_left D (Nat.pow_le_pow_right (by omega) hjk)
  have hD' : D ≤ D * 2 ^ j := Nat.le_mul_of_pos_right D (Nat.two_pow_pos j)
  obtain ⟨s', hbound, hs'⟩ :=
    hp.boundBufferSize_max hm hD hM hs hD' hupper (by omega : D * 2 ^ j < fuel)
  -- Doubling has ended at the limit or past the last size that is granted.
  have hmin : min M (D * 2 ^ j) = min M (D * 2 ^ k) := by
    rcases Nat.lt_or_eq_of_le hjk with hlt | rfl
    · have hsmall := hfirst j hlt
      omega
    · rfl
  refine ⟨k, s', ⟨hk, hfirst⟩, ?_, hs'⟩
  rw [Global.maxBufferSize]
  dsimp only [initHandleForBufferSize] at hdouble ⊢
  rw [if_neg (by simp), doubleLoop_eq_doubleWhile _ (by decide), hdouble, ← hmin]
  exact hbound

end

/-- The limits of the buffer sizes are found exactly, and no size that is tested changes when it is
converted to `int`. -/
theorem buffer_size_limits {σ : Type*} {p : Platform σ} {m M D : Nat} (hp : Grants p m M)
    (hm : 1 ≤ m) (hD : m ≤ D) (hM : D ≤ M) (hlimit : D ≤ intMax / 2) {fuel : Nat}
    (hfuel : intMax < fuel) :
    (∃ s, minBufferSize p fuel D = some (m, s) ∧
        ∀ size ∈ s.tested, size ≤ intMax ∧ toInt size = size) ∧
      ∃ k s, (intMax / 2 ≤ D * 2 ^ k ∧ ∀ j < k, D * 2 ^ j < intMax / 2) ∧
        maxBufferSize p fuel D = some (min M (D * 2 ^ k), s) ∧
        ∀ size ∈ s.tested, size ≤ intMax ∧ toInt size = size := by
  have hconvert {s : Search σ} (hs : s.InRange) :
      ∀ size ∈ s.tested, size ≤ intMax ∧ toInt size = size :=
    fun size hsize => ⟨hs size hsize, toInt_of_le (hs size hsize)⟩
  obtain ⟨s, hmin, hs⟩ := hp.minBufferSize hm hD hM hlimit (by omega : D ≤ fuel)
  obtain ⟨k, s', hk, hmax, hs'⟩ := hp.maxBufferSize hm hD hM hlimit hfuel
  exact ⟨⟨s, hmin, hconvert hs⟩, k, s', hk, hmax, hconvert hs'⟩

/-- A socket that refuses the sizes beyond `m` and `M`, where Linux sets the nearest one that it
grants, and reports twice the size that was set, as Linux does. -/
def socket (m M : Nat) : Platform Nat where
  accessor size value :=
    if value = 0 then { error := 0, value := 2 * size, handle := size }
    else if m ≤ value ∧ value ≤ M then { error := 0, value, handle := value.toNat }
    else { error := -22, value, handle := size }
  sizeMultiplier := 2
  handle := m

theorem grants_socket {m M : Nat} (hm : 1 ≤ m) : Grants (socket m M) m M := by
  intro s size hsize
  have hmax : intMax < 2 ^ 31 := by decide
  rw [isBufferSizeAvailable, toInt_of_le hsize]
  dsimp only
  by_cases hzero : size = 0
  · rw [if_pos hzero]
    simp
    omega
  · rw [if_neg hzero]
    by_cases hgranted : m ≤ size ∧ size ≤ M
    · have hset : (socket m M).accessor s.handle size =
          { error := 0, value := size, handle := size } := by
        simp [socket, hzero, hgranted]
      rw [hset, if_neg (by simp)]
      simp [socket, toSize, hgranted]
      omega
    · have hset : (socket m M).accessor s.handle size =
          { error := -22, value := size, handle := s.handle } := by
        simp [socket, hzero]
        omega
      rw [hset, if_pos (by simp)]
      simpa using hgranted

theorem buffer_size_limits_socket :
    (∃ s, minBufferSize (socket 4 100) (intMax + 1) 10 = some (4, s)) ∧
      ∃ s, maxBufferSize (socket 4 100) (intMax + 1) 10 = some (100, s) := by
  obtain ⟨⟨s, hmin, _⟩, k, s', ⟨hk, _⟩, hmax, _⟩ :=
    buffer_size_limits (grants_socket (m := 4) (M := 100) (by omega)) (D := 10) (by omega)
      (by omega) (by omega) (by decide) (Nat.lt_succ_self intMax)
  have hlimit : 100 ≤ intMax / 2 := by decide
  rw [Nat.min_eq_left (by omega)] at hmax
  exact ⟨⟨s, hmin⟩, s', hmax⟩

end TarmIo.Global
