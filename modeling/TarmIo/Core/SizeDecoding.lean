import TarmIo.Foundation.Groups
import TarmIo.Core.VariableLengthSize

/-!
# The size decoder refines the group reader

`Holds s p` lays the decoded word out as arithmetic: value in the low 56 bits,
byte count above it, the two flags on top. Under it `addByte` makes exactly the
steps of the eight-byte group reader, in the failed state as well.
-/

namespace TarmIo.Core.VariableLengthSize

open Foundation

def Holds (s : VariableLengthSize) : Progress → Prop
  | .reading count v =>
      count < 8 ∧ v < 128 ^ count ∧ s.decodedValue.toNat = v + count * 2 ^ 56
  | .complete count v =>
      count ≤ 8 ∧ v < 128 ^ count ∧ s.decodedValue.toNat = v + count * 2 ^ 56 + 2 ^ 63
  | .failed => ∃ v, v < 128 ^ 7 ∧ s.decodedValue.toNat = v + 7 * 2 ^ 56 + 2 ^ 62

theorem holds_fresh : Holds {} (.reading 0 0) := by
  refine ⟨by decide, by decide, rfl⟩

theorem holds_reset (s : VariableLengthSize) : Holds s.reset (.reading 0 0) := holds_fresh

/-! ## Flags and counter -/

variable {s : VariableLengthSize} {count v : Nat}

theorem isComplete_eq (s : VariableLengthSize) :
    s.isComplete = decide (s.decodedValue.toNat / 2 ^ 63 % 2 = 1) :=
  word_and_bit _ _ 63 rfl

theorem fail_eq (s : VariableLengthSize) :
    s.fail = decide (s.decodedValue.toNat / 2 ^ 62 % 2 = 1) :=
  word_and_bit _ _ 62 rfl

/-- Seven groups never reach the counter. -/
private theorem pow_le {count : Nat} (h : count ≤ 8) : 128 ^ count ≤ 2 ^ 56 :=
  calc
    128 ^ count ≤ 128 ^ 8 := Nat.pow_le_pow_right (by decide) h
    _ = 2 ^ 56 := by decide

theorem isComplete_reading (h : Holds s (.reading count v)) : s.isComplete = false := by
  obtain ⟨hc, hv, hd⟩ := h
  have hp := pow_le (Nat.le_of_lt hc)
  rw [isComplete_eq, decide_eq_false_iff_not]
  omega

theorem fail_reading (h : Holds s (.reading count v)) : s.fail = false := by
  obtain ⟨hc, hv, hd⟩ := h
  have hp := pow_le (Nat.le_of_lt hc)
  rw [fail_eq, decide_eq_false_iff_not]
  omega

theorem isComplete_complete (h : Holds s (.complete count v)) : s.isComplete = true := by
  obtain ⟨hc, hv, hd⟩ := h
  have hp := pow_le hc
  rw [isComplete_eq, decide_eq_true_iff]
  omega

theorem fail_complete (h : Holds s (.complete count v)) : s.fail = false := by
  obtain ⟨hc, hv, hd⟩ := h
  have hp := pow_le hc
  rw [fail_eq, decide_eq_false_iff_not]
  omega

theorem isComplete_failed (h : Holds s .failed) : s.isComplete = false := by
  obtain ⟨v, hv, hd⟩ := h
  rw [isComplete_eq, decide_eq_false_iff_not]
  omega

theorem fail_failed (h : Holds s .failed) : s.fail = true := by
  obtain ⟨v, hv, hd⟩ := h
  rw [fail_eq, decide_eq_true_iff]
  omega

theorem value_complete (h : Holds s (.complete count v)) : s.value.toNat = v := by
  have hcomplete := isComplete_complete h
  obtain ⟨hc, hv, hd⟩ := h
  have hp := pow_le hc
  rw [value, if_pos hcomplete, word_and_low _ _ 56 rfl]
  omega

theorem value_failed (h : Holds s .failed) : s.value = invalidValue := by
  simp [value, isComplete_failed h]

theorem decodedCount_reading (h : Holds s (.reading count v)) : s.decodedCount.toNat = count := by
  obtain ⟨hc, hv, hd⟩ := h
  have hp := pow_le (Nat.le_of_lt hc)
  have hmask : (0x0F00000000000000 : Nat) >>> 56 = 2 ^ 4 - 1 := by decide
  have hlow : (s.decodedValue.toNat >>> 56) &&& (2 ^ 4 - 1) =
      s.decodedValue.toNat / 2 ^ 56 % 2 ^ 4 := by
    rw [Nat.and_two_pow_sub_one_eq_mod, Nat.shiftRight_eq_div_pow]
  rw [decodedCount, UInt64.toNat_shiftRight, UInt64.toNat_and]
  change (s.decodedValue.toNat &&& 0x0F00000000000000) >>> 56 = count
  rw [Nat.shiftRight_and_distrib, hmask, hlow]
  omega

/-! ## One byte -/

theorem mark_bit (b : UInt8) : (b &&& 0x80 = 0) ↔ ¬ Marked b := by
  have hall : ∀ i : Fin 256, (i.val &&& 128 = 0) ↔ ¬ 128 ≤ i.val := by decide +kernel
  have hb := hall ⟨b.toNat, b.toNat_lt⟩
  rw [Marked, ← hb, ← UInt8.toNat_inj, UInt8.toNat_and]
  rfl

private theorem chunk_toNat (b : UInt8) : ((b &&& 0x7F).toUInt64).toNat = b.toNat % 128 := by
  rw [UInt8.toNat_toUInt64, UInt8.toNat_and]
  exact Nat.and_two_pow_sub_one_eq_mod b.toNat 7

/-- The decoded word after a byte was taken, before the complete flag. -/
private theorem decoded_next {s : VariableLengthSize} {count v : Nat}
    (h : Holds s (.reading count v)) (b : UInt8) :
    ((((s.decodedValue <<< 7) &&& ~~~isCompleteMask) ||| ((s.decodedCount + 1) <<< 56)) |||
        (b &&& 0x7F).toUInt64).toNat =
      (v * 128 + b.toNat % 128) + (count + 1) * 2 ^ 56 := by
  have hcount := decodedCount_reading h
  obtain ⟨hc, hv, hd⟩ := h
  have hv' : v * 128 < 2 ^ 56 := by
    have h7 : 128 ^ count ≤ 128 ^ 7 := Nat.pow_le_pow_right (by decide) (by omega)
    omega
  -- The counter's low bit is shifted onto the complete flag and cleared there.
  have hshift : ((s.decodedValue <<< 7) &&& ~~~isCompleteMask).toNat = v * 128 := by
    rw [word_and_low _ _ 63 rfl, UInt64.toNat_shiftLeft, hd]
    change ((v + count * 2 ^ 56) <<< 7 % 2 ^ 64) % 2 ^ 63 = v * 128
    rw [Nat.shiftLeft_eq]
    omega
  have hone : (s.decodedCount + 1).toNat = count + 1 := by
    rw [UInt64.toNat_add, hcount]
    change (count + 1) % 2 ^ 64 = count + 1
    omega
  have hhigh : ((s.decodedCount + 1) <<< 56).toNat = 2 ^ 56 * (count + 1) := by
    rw [word_shiftLeft _ _ 56 rfl (by decide) (by rw [hone]; omega), hone, Nat.mul_comm]
  have hunion := word_or_high _ _ 56 (count + 1) (by rw [hshift]; exact hv') hhigh
  rw [hshift, hhigh] at hunion
  have hchunk : ((b &&& 0x7F).toUInt64).toNat < 2 ^ 7 := by
    rw [chunk_toNat]
    omega
  have hlow := word_or_high _ _ 7 (v + 2 ^ 49 * (count + 1)) hchunk (by rw [hunion]; omega)
  rw [UInt64.or_comm, hlow, hunion, chunk_toNat]
  omega

private theorem or_flag (x m : UInt64) (k : Nat) (hm : m.toNat = 2 ^ k) (hx : x.toNat < 2 ^ k) :
    (x ||| m).toNat = x.toNat + 2 ^ k := by
  rw [word_or_high x m k 1 hx (by omega), hm]

section Reading

variable {b : UInt8} (h : Holds s (.reading count v))
include h

theorem decodedCount_eq_seven_iff : s.decodedCount = 7 ↔ count + 1 = 8 := by
  rw [← UInt64.toNat_inj, decodedCount_reading h]
  change count = 7 ↔ _
  omega

theorem addByte_eighth (hb : Marked b) (hlast : count + 1 = 8) :
    s.addByte b = (false, s.setIsFail) := by
  have hbit : ¬ (b &&& 0x80 = 0) := fun h0 => (mark_bit b).mp h0 hb
  have hseven := (decodedCount_eq_seven_iff h).mpr hlast
  simp only [addByte, isComplete_reading h, fail_reading h, hbit, hseven, Bool.false_eq_true,
    if_false, not_false_eq_true, and_self, if_true]

theorem addByte_marked (hb : Marked b) (hmore : count + 1 ≠ 8) :
    s.addByte b = (true,
      { encodedValue := (s.encodedValue >>> 8) ||| (b.toUInt64 <<< 56)
        decodedValue := (((s.decodedValue <<< 7) &&& ~~~isCompleteMask) |||
          ((s.decodedCount + 1) <<< 56)) ||| (b &&& 0x7F).toUInt64 }) := by
  have hbit : ¬ (b &&& 0x80 = 0) := fun h0 => (mark_bit b).mp h0 hb
  have hseven : ¬ s.decodedCount = 7 := fun h7 => hmore ((decodedCount_eq_seven_iff h).mp h7)
  simp only [addByte, isComplete_reading h, fail_reading h, hbit, hseven, Bool.false_eq_true,
    if_false, false_and]

theorem addByte_unmarked (hb : ¬ Marked b) :
    s.addByte b = (true,
      { encodedValue := ((s.encodedValue >>> 8) ||| (b.toUInt64 <<< 56)) >>>
          (8 * (8 - s.decodedCount - 1))
        decodedValue := ((((s.decodedValue <<< 7) &&& ~~~isCompleteMask) |||
          ((s.decodedCount + 1) <<< 56)) ||| (b &&& 0x7F).toUInt64) ||| isCompleteMask }) := by
  have hbit : b &&& 0x80 = 0 := (mark_bit b).mpr hb
  simp only [addByte, isComplete_reading h, fail_reading h, hbit, Bool.false_eq_true, if_false,
    not_true_eq_false, and_false, if_true, setIsComplete]

end Reading

theorem addByte_complete (h : Holds s (.complete count v)) (b : UInt8) :
    s.addByte b = (false, s) := by
  rw [addByte, if_pos (isComplete_complete h)]

theorem addByte_failed (h : Holds s .failed) (b : UInt8) : s.addByte b = (false, s) := by
  rw [addByte, if_neg (by simp [isComplete_failed h]), if_pos (fail_failed h)]

theorem addByte_refines {p : Progress} (h : Holds s p) (b : UInt8) :
    (s.addByte b).1 = (p.next 8 b).1 ∧ Holds (s.addByte b).2 (p.next 8 b).2 := by
  cases p with
  | reading count v =>
      have hword := decoded_next h b
      obtain ⟨hc, hv, hd⟩ := id h
      have hv' : v * 128 + b.toNat % 128 < 128 ^ (count + 1) := by
        rw [Nat.pow_succ]
        omega
      have hp := pow_le (Nat.succ_le_of_lt hc)
      by_cases hb : Marked b
      · by_cases hl : count + 1 = 8
        · rw [addByte_eighth h hb hl, Progress.next, if_pos hb, if_pos hl]
          refine ⟨rfl, v, by rwa [show count = 7 by omega] at hv, ?_⟩
          simp only [setIsFail]
          rw [or_flag _ _ 62 rfl (by rw [hd]; omega), hd]
          omega
        · rw [addByte_marked h hb hl, Progress.next, if_pos hb, if_neg hl]
          exact ⟨rfl, by omega, hv', hword⟩
      · rw [addByte_unmarked h hb, Progress.next, if_neg hb]
        refine ⟨rfl, hc, hv', ?_⟩
        simp only
        rw [or_flag _ _ 63 rfl (by rw [hword]; omega), hword]
  | complete count v =>
      rw [addByte_complete h]
      exact ⟨rfl, h⟩
  | failed =>
      rw [addByte_failed h]
      exact ⟨rfl, h⟩

theorem addBytesLoop_refines {p : Progress} (h : Holds s p) (bs : List UInt8) :
    (s.addBytesLoop bs).1 = (p.scan 8 bs).1 ∧ Holds (s.addBytesLoop bs).2 (p.scan 8 bs).2 := by
  induction bs generalizing s p with
  | nil => exact ⟨rfl, h⟩
  | cons b bs ih =>
      obtain ⟨hflag, hnext⟩ := addByte_refines h b
      by_cases hb : (p.next 8 b).1
      · have hrec := ih hnext
        simp only [addBytesLoop, Progress.scan, hflag, hb, if_true]
        exact ⟨by rw [hrec.1], hrec.2⟩
      · simp only [addBytesLoop, Progress.scan, hflag, hb, if_false, Bool.false_eq_true, true_and]
        exact hnext

/-- A failed decoder takes nothing and stays as it is. -/
theorem addBytesLoop_failed (h : Holds s .failed) (bs : List UInt8) :
    s.addBytesLoop bs = (0, s) := by
  cases bs with
  | nil => rfl
  | cons b bs => simp [addBytesLoop, addByte, isComplete_failed h, fail_failed h]

end TarmIo.Core.VariableLengthSize
