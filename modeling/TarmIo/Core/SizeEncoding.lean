import TarmIo.Foundation.Groups
import TarmIo.Core.VariableLengthSize

/-!
# The size encoder writes the minimal field

The loop of `encode_impl` meets the groups from the least significant one on and
pushes each to the low end of the word, so the bytes in memory order are the
groups from the most significant one on. `bytes_count` recovers the length from
the marker bits.
-/

namespace TarmIo.Core.VariableLengthSize

open Foundation

private def highGroups (n : Nat) : List UInt8 :=
  (Nat.digits 128 n).reverse.map fun d => UInt8.ofNat (d + 128)

private theorem highGroups_pos {n : Nat} (h : n ≠ 0) :
    highGroups n = highGroups (n / 128) ++ [UInt8.ofNat (n % 128 + 128)] := by
  rw [highGroups, Nat.digits_def' (by decide) (Nat.pos_of_ne_zero h)]
  simp [highGroups]

private theorem field_eq (n : Nat) :
    field n = highGroups (n / 128) ++ [UInt8.ofNat (n % 128)] := rfl

/-! ## The loop -/

variable {v : UInt64}

private theorem chunk_toNat64 (x : UInt64) : (x &&& 0x7F).toNat = x.toNat % 128 :=
  word_and_low x _ 7 rfl

private theorem shift_group (x : UInt64) : (x >>> 7).toNat = x.toNat / 128 :=
  word_shiftRight x _ 7 rfl (by decide)

/-- Pushing a marked group puts its byte in front. -/
private theorem push_marked (encoded current : UInt64) (ws : List UInt8) (hlen : ws.length ≤ 7)
    (he : encoded.toNat = ofBytesLE ws) :
    ((encoded <<< 8) ||| ((current &&& 0x7F) ||| 0x80)).toNat =
      ofBytesLE (UInt8.ofNat (current.toNat % 128 + 128) :: ws) := by
  have hws : ofBytesLE ws < 256 ^ 7 :=
    Nat.lt_of_lt_of_le (ofBytesLE_lt ws) (Nat.pow_le_pow_right (by decide) hlen)
  have hhigh : (encoded <<< 8).toNat = 2 ^ 8 * ofBytesLE ws := by
    rw [word_shiftLeft _ _ 8 rfl (by decide) (by rw [he]; omega), he, Nat.mul_comm]
  have hchunk := chunk_toNat64 current
  have hlow : ((current &&& 0x7F) ||| 0x80).toNat = current.toNat % 128 + 128 := by
    rw [word_or_high _ _ 7 1 (by rw [hchunk]; omega) rfl, hchunk]
    rfl
  rw [UInt64.or_comm, word_or_high _ _ 8 _ (by rw [hlow]; omega) hhigh, hlow, hhigh,
    ofBytesLE_cons, UInt8.toNat_ofNat']
  omega

/-- Every round below the first one handles a part of `v` smaller than `v`. -/
private theorem encodeLoop_high (v : UInt64) (rounds : Nat) (encoded current : UInt64)
    (ws : List UInt8) (hne : current.toNat ≠ 0) (hlt : current.toNat < v.toNat)
    (hrounds : current.toNat < 128 ^ rounds)
    (hfit : (Nat.digits 128 current.toNat).length + ws.length ≤ 8)
    (he : encoded.toNat = ofBytesLE ws) :
    (encodeLoop v rounds encoded current).toNat =
      ofBytesLE (highGroups current.toNat ++ ws) := by
  induction rounds generalizing encoded current ws with
  | zero =>
      simp only [Nat.pow_zero] at hrounds
      omega
  | succ rounds ih =>
      have hcur : current ≠ v := by
        intro heq
        rw [heq] at hlt
        omega
      have hdigits := Nat.digits_def' (by decide : 1 < 128) (Nat.pos_of_ne_zero hne)
      have hlen : (Nat.digits 128 (current.toNat / 128)).length + 1 + ws.length ≤ 8 := by
        rw [hdigits] at hfit
        simpa using hfit
      have hpush := push_marked encoded current ws (by omega) he
      have hshift := shift_group current
      rw [highGroups_pos hne, List.append_assoc, List.singleton_append]
      by_cases hzero : current >>> 7 = 0
      · have hdiv : current.toNat / 128 = 0 := by
          rw [← hshift, hzero]
          rfl
        simp only [encodeLoop, hcur, hzero, ne_eq, not_false_eq_true, not_true_eq_false, if_true,
          if_false, hpush]
        simp [hdiv, highGroups]
      · have hpos : current.toNat / 128 ≠ 0 := by
          intro hdiv
          apply hzero
          apply UInt64.toNat_inj.mp
          rw [hshift, hdiv]
          rfl
        simp only [encodeLoop, hcur, hzero, ne_eq, not_false_eq_true, if_true]
        have hrec := ih ((encoded <<< 8) ||| ((current &&& 0x7F) ||| 0x80)) (current >>> 7)
          (UInt8.ofNat (current.toNat % 128 + 128) :: ws) (by rw [hshift]; exact hpos)
          (by rw [hshift]; omega)
          (by
            rw [hshift, Nat.div_lt_iff_lt_mul (by decide)]
            rwa [Nat.pow_succ] at hrounds)
          (by
            rw [hshift, List.length_cons]
            omega)
          hpush
        rw [hrec, hshift]

private theorem above_group_eq_zero (v : UInt64) : v &&& ~~~0x7F = 0 ↔ v.toNat < 128 := by
  have hlt := v.toNat_lt
  have hm : (~~~0x7F : UInt64).toNat = 2 ^ 64 - 2 ^ 7 := by decide
  have hdiv : (v &&& ~~~0x7F).toNat / 2 ^ 7 = v.toNat / 2 ^ 7 := by
    rw [UInt64.toNat_and, hm, Nat.and_div_two_pow]
    change v.toNat / 2 ^ 7 &&& 2 ^ 57 - 1 = v.toNat / 2 ^ 7
    rw [Nat.and_two_pow_sub_one_eq_mod]
    omega
  have hmod : (v &&& ~~~0x7F).toNat % 2 ^ 7 = 0 := by
    rw [UInt64.toNat_and, hm, Nat.and_mod_two_pow]
    change v.toNat % 2 ^ 7 &&& 0 = 0
    exact Nat.and_zero _
  rw [← UInt64.toNat_inj]
  change (v &&& ~~~0x7F).toNat = 0 ↔ _
  omega

private theorem encodeLoop_succ (v : UInt64) (rounds : Nat) (encoded current : UInt64) :
    encodeLoop v (rounds + 1) encoded current =
      let encoded :=
        if current ≠ v then (encoded <<< 8) ||| ((current &&& 0x7F) ||| 0x80)
        else encoded ||| (current &&& 0x7F)
      if current >>> 7 ≠ 0 then encodeLoop v rounds encoded (current >>> 7) else encoded := rfl

/-- The encoded word of a size holds the bytes of its minimal field. -/
theorem encodeImpl_toNat (hv : v.toNat < 2 ^ 56) :
    (encodeImpl 0 v).toNat = ofBytesLE (field v.toNat) := by
  have hmask := above_group_eq_zero v
  by_cases hsmall : v.toNat < 128
  · have hdiv : v.toNat / 128 = 0 := by omega
    have hmod : v.toNat % 128 = v.toNat := by omega
    rw [encodeImpl, if_neg (by simpa using hmask.mpr hsmall), field_eq, hdiv, hmod]
    simp only [highGroups, Nat.digits_zero, List.reverse_nil, List.map_nil, List.nil_append,
      ofBytesLE_cons, ofBytesLE_nil, UInt8.toNat_ofNat']
    omega
  · have hbig : ¬ (v &&& ~~~0x7F = 0) := fun h0 => hsmall (hmask.mp h0)
    have hshift := shift_group v
    have hnext : ¬ (v >>> 7 = 0) := by
      intro h0
      have hz : (v >>> 7).toNat = 0 := by rw [h0]; rfl
      omega
    have hfirst : ((0 : UInt64) ||| (v &&& 0x7F)).toNat =
        ofBytesLE [UInt8.ofNat (v.toNat % 128)] := by
      rw [UInt64.zero_or, chunk_toNat64]
      simp only [ofBytesLE_cons, ofBytesLE_nil, UInt8.toNat_ofNat']
      omega
    have hdiv : v.toNat / 128 < 128 ^ 7 := by omega
    have hlen := (Nat.digits_length_le_iff (by decide : 1 < 128) (v.toNat / 128)).mpr hdiv
    rw [encodeImpl, if_pos hbig, encodeLoop_succ]
    simp only [ne_eq, not_true_eq_false, if_false, hnext, not_false_eq_true, if_true]
    rw [encodeLoop_high v 9 _ _ [UInt8.ofNat (v.toNat % 128)] (by omega) (by omega)
      (by rw [hshift]; exact Nat.lt_of_lt_of_le hdiv (by decide))
      (by rw [hshift, List.length_singleton]; omega) hfirst, hshift, field_eq]

/-! ## Reading the encoded word back -/

private theorem byte_at (x s : UInt64) (k : Nat) (hs : s.toNat = k) (hk : k < 64) :
    (x >>> s).toUInt8 = UInt8.ofNat (x.toNat / 2 ^ k % 256) := by
  apply UInt8.toNat_inj.mp
  rw [UInt64.toNat_toUInt8, word_shiftRight x s k hs hk, UInt8.toNat_ofNat']
  omega

theorem bytes_eq (s : VariableLengthSize) : s.bytes = bytesLE 8 s.encodedValue.toNat := by
  simp only [bytes, bytesLE, List.map_cons, List.map_nil, Nat.div_div_eq_div_mul]
  rw [byte_at _ 0 0 rfl (by decide), byte_at _ 8 8 rfl (by decide),
    byte_at _ 16 16 rfl (by decide), byte_at _ 24 24 rfl (by decide),
    byte_at _ 32 32 rfl (by decide), byte_at _ 40 40 rfl (by decide),
    byte_at _ 48 48 rfl (by decide), byte_at _ 56 56 rfl (by decide)]
  simp

/-- The marker mask leaves one marker for each byte but the last. -/
private theorem marks_of_field (init : List UInt8) (last : UInt8) (n : Nat)
    (hn : init.length < n) (hinit : ∀ b ∈ init, Marked b) (hlast : ¬ Marked last) :
    ofBytesLE (List.replicate n 0x80) &&& ofBytesLE (init ++ [last]) =
      ofBytesLE (List.replicate init.length 0x80) := by
  have hbit : ∀ b : UInt8, (0x80 : UInt8).toNat &&& b.toNat = if Marked b then 128 else 0 := by
    intro b
    have hall : ∀ i : Fin 256, 128 &&& i.val = if 128 ≤ i.val then 128 else 0 := by
      decide +kernel
    have hb := hall ⟨b.toNat, b.toNat_lt⟩
    by_cases hm : Marked b
    · rw [if_pos hm]
      exact hb.trans (if_pos hm)
    · rw [if_neg hm]
      exact hb.trans (if_neg hm)
  induction init generalizing n with
  | nil =>
      obtain ⟨m, rfl⟩ : ∃ m, n = m + 1 := ⟨n - 1, by simp at hn; omega⟩
      rw [List.replicate_succ, ofBytesLE_cons, List.nil_append, ofBytesLE_cons,
        byte_and _ _ _ _ (UInt8.toNat_lt _) last.toNat_lt, hbit last, if_neg hlast]
      simp
  | cons b init ih =>
      obtain ⟨m, rfl⟩ : ∃ m, n = m + 1 := ⟨n - 1, by simp at hn; omega⟩
      have hb : Marked b := hinit b List.mem_cons_self
      rw [List.replicate_succ, ofBytesLE_cons, List.cons_append, ofBytesLE_cons,
        byte_and _ _ _ _ (UInt8.toNat_lt _) b.toNat_lt, hbit b, if_pos hb,
        ih m (by simpa using hn) fun x hx => hinit x (List.mem_cons_of_mem b hx),
        List.length_cons, List.replicate_succ, ofBytesLE_cons]
      rfl

/-- `bytes_count` is the length of the field in the encoded word. -/
theorem bytesCount_of_field {s : VariableLengthSize} {bs : List UInt8} {n : Nat}
    (hf : IsField bs n) (hlen : bs.length ≤ 8) (he : s.encodedValue.toNat = ofBytesLE bs)
    (hc : s.isComplete = true) : s.bytesCount = bs.length := by
  obtain ⟨init, last, rfl, hinit, hlast⟩ := hf.shape
  have hinitLen : init.length < 8 := by
    simp only [List.length_append, List.length_singleton] at hlen
    omega
  have hmask : ((0x8080808080808080 : UInt64) &&& s.encodedValue).toNat =
      ofBytesLE (List.replicate init.length 0x80) := by
    have hword : (0x8080808080808080 : UInt64).toNat = ofBytesLE (List.replicate 8 0x80) := by
      decide
    rw [UInt64.toNat_and, he, hword]
    exact marks_of_field init last 8 hinitLen hinit hlast
  have hcase : ∀ m : UInt64, m.toNat = ofBytesLE (List.replicate init.length 0x80) →
      (0x8080808080808080 : UInt64) &&& s.encodedValue = m := by
    intro m hm
    apply UInt64.toNat_inj.mp
    rw [hmask, hm]
  rw [List.length_append, List.length_singleton]
  unfold bytesCount
  generalize init.length = k at *
  interval_cases k
  · simp [hcase 0 (by decide), hc]
  · simp [hcase 0x80 (by decide)]
  · simp [hcase 0x8080 (by decide)]
  · simp [hcase 0x808080 (by decide)]
  · simp [hcase 0x80808080 (by decide)]
  · simp [hcase 0x8080808080 (by decide)]
  · simp [hcase 0x808080808080 (by decide)]
  · simp [hcase 0x80808080808080 (by decide)]

theorem bytesCount_le (s : VariableLengthSize) : s.bytesCount ≤ 8 := by
  simp only [bytesCount]
  repeat' split
  all_goals decide

theorem le_maxValue_iff : v ≤ maxValue ↔ v.toNat < 2 ^ 56 := by
  rw [UInt64.le_iff_toNat_le]
  change v.toNat ≤ 2 ^ 56 - 1 ↔ _
  omega

theorem ofUInt64_eq (hv : v.toNat < 2 ^ 56) :
    ofUInt64 v = { encodedValue := encodeImpl 0 v, decodedValue := v ||| isCompleteMask } := by
  simp [ofUInt64, le_maxValue_iff.mpr hv]

/-- What a sender puts on the wire for a size: the minimal field. -/
theorem ofUInt64_wire (hv : v.toNat < 2 ^ 56) :
    (ofUInt64 v).bytes.take (ofUInt64 v).bytesCount = field v.toNat := by
  have hs := ofUInt64_eq hv
  have hlen : (field v.toNat).length ≤ 8 := field_length_le hv
  have hcomplete : (ofUInt64 v).isComplete = true := by
    rw [hs, isComplete]
    simp only
    rw [word_and_bit _ _ 63 rfl, word_or_high _ _ 63 1 (by omega) rfl, decide_eq_true_iff]
    change (v.toNat + 2 ^ 63) / 2 ^ 63 % 2 = 1
    omega
  have hword : (ofUInt64 v).encodedValue.toNat = ofBytesLE (field v.toNat) := by
    rw [hs]
    exact encodeImpl_toNat hv
  rw [bytesCount_of_field (field_isField v.toNat) hlen hword hcomplete, bytes_eq, hword,
    take_bytesLE_ofBytesLE _ 8 hlen]

/-- A value above the maximum leaves the object empty. -/
theorem ofUInt64_too_large (hv : 2 ^ 56 ≤ v.toNat) : ofUInt64 v = {} := by
  have hgt : ¬ v ≤ maxValue := fun hle => Nat.not_lt.mpr hv (le_maxValue_iff.mp hle)
  simp [ofUInt64, hgt]

end TarmIo.Core.VariableLengthSize
