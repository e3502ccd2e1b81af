import Mathlib.Data.Nat.Bitwise
import Mathlib.Data.Nat.Digits.Defs

/-!
# Sixty-four-bit words as numbers

Masks, shifts and disjoint unions of `UInt64` read as arithmetic on `toNat`, and
the little-endian byte view of a word.
-/

namespace TarmIo.Foundation

theorem word_and_low (x m : UInt64) (k : Nat) (hm : m.toNat = 2 ^ k - 1) :
    (x &&& m).toNat = x.toNat % 2 ^ k := by
  rw [UInt64.toNat_and, hm, Nat.and_two_pow_sub_one_eq_mod]

/-- A single-bit mask tests one binary digit. -/
theorem word_and_bit (x m : UInt64) (k : Nat) (hm : m.toNat = 2 ^ k) :
    (x &&& m != 0) = decide (x.toNat / 2 ^ k % 2 = 1) := by
  have hand : (x &&& m).toNat = (x.toNat.testBit k).toNat * 2 ^ k := by
    rw [UInt64.toNat_and, hm, Nat.and_two_pow]
  have hpos : 0 < 2 ^ k := Nat.two_pow_pos k
  rw [Nat.testBit_eq_decide_div_mod_eq] at hand
  by_cases hbit : x.toNat / 2 ^ k % 2 = 1
  · have hne : x &&& m ≠ 0 := by
      intro h0
      rw [h0] at hand
      simp only [hbit, decide_true, Bool.toNat_true, Nat.one_mul] at hand
      change 0 = 2 ^ k at hand
      omega
    simp [hne, hbit]
  · have heq : x &&& m = 0 := by
      apply UInt64.toNat_inj.mp
      rw [hand]
      simp [hbit]
    simp [heq, hbit]

/-- A union with a part above all bits of the other is a sum. -/
theorem word_or_high (x y : UInt64) (k a : Nat) (hx : x.toNat < 2 ^ k)
    (hy : y.toNat = 2 ^ k * a) : (x ||| y).toNat = x.toNat + y.toNat := by
  rw [UInt64.toNat_or, hy, Nat.or_comm, ← Nat.two_pow_add_eq_or_of_lt hx, Nat.add_comm]

theorem word_shiftLeft (x s : UInt64) (k : Nat) (hs : s.toNat = k) (hk : k < 64)
    (hfit : x.toNat * 2 ^ k < 2 ^ 64) : (x <<< s).toNat = x.toNat * 2 ^ k := by
  rw [UInt64.toNat_shiftLeft, hs, Nat.mod_eq_of_lt hk, Nat.shiftLeft_eq,
    Nat.mod_eq_of_lt hfit]

theorem word_shiftRight (x s : UInt64) (k : Nat) (hs : s.toNat = k) (hk : k < 64) :
    (x >>> s).toNat = x.toNat / 2 ^ k := by
  rw [UInt64.toNat_shiftRight, hs, Nat.mod_eq_of_lt hk, Nat.shiftRight_eq_div_pow]

/-! ## Bytes of a word -/

def bytesLE : Nat → Nat → List UInt8
  | 0, _ => []
  | k + 1, n => UInt8.ofNat (n % 256) :: bytesLE k (n / 256)

def ofBytesLE (bs : List UInt8) : Nat := Nat.ofDigits 256 (bs.map UInt8.toNat)

@[simp] theorem ofBytesLE_nil : ofBytesLE [] = 0 := rfl

@[simp] theorem ofBytesLE_cons (b : UInt8) (bs : List UInt8) :
    ofBytesLE (b :: bs) = b.toNat + 256 * ofBytesLE bs := by
  simp [ofBytesLE, Nat.ofDigits_cons]

theorem ofBytesLE_lt (bs : List UInt8) : ofBytesLE bs < 256 ^ bs.length := by
  induction bs with
  | nil => simp
  | cons b bs ih =>
      have hb := b.toNat_lt
      rw [ofBytesLE_cons, List.length_cons, Nat.pow_succ]
      omega

theorem ofBytesLE_append (xs ys : List UInt8) :
    ofBytesLE (xs ++ ys) = ofBytesLE xs + 256 ^ xs.length * ofBytesLE ys := by
  simp [ofBytesLE, Nat.ofDigits_append]

/-- Bytes stored in the low end of a wide enough word are read back first. -/
theorem take_bytesLE_ofBytesLE (bs : List UInt8) (k : Nat) (h : bs.length ≤ k) :
    (bytesLE k (ofBytesLE bs)).take bs.length = bs := by
  induction bs generalizing k with
  | nil => simp
  | cons b bs ih =>
      cases k with
      | zero => simp at h
      | succ k =>
          have hb := b.toNat_lt
          have hmod : (b.toNat + 256 * ofBytesLE bs) % 256 = b.toNat := by omega
          have hdiv : (b.toNat + 256 * ofBytesLE bs) / 256 = ofBytesLE bs := by omega
          have hbyte : UInt8.ofNat b.toNat = b := UInt8.ofNat_toNat
          simp only [bytesLE, ofBytesLE_cons, hmod, hdiv, hbyte, List.length_cons,
            List.take_succ_cons]
          rw [ih k (by simpa using h)]

/-- A mask acts on the bytes of a number one by one. -/
theorem byte_and (a b c d : Nat) (ha : a < 256) (hc : c < 256) :
    (a + 256 * b) &&& (c + 256 * d) = (a &&& c) + 256 * (b &&& d) := by
  have hac : a &&& c < 2 ^ 8 := Nat.and_lt_two_pow a hc
  rw [Nat.add_comm a, Nat.add_comm c, Nat.add_comm (a &&& c)]
  apply Nat.eq_of_testBit_eq
  intro j
  have split : ∀ x y : Nat, y < 2 ^ 8 →
      (256 * x + y).testBit j = if j < 8 then y.testBit j else x.testBit (j - 8) :=
    fun x y hy => Nat.testBit_two_pow_mul_add x hy j
  rw [Nat.testBit_and, split b a ha, split d c hc, split (b &&& d) (a &&& c) hac]
  by_cases hj : j < 8
  · simp [hj, Nat.testBit_and]
  · simp [hj, Nat.testBit_and]

end TarmIo.Foundation
