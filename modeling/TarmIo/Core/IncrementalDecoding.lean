import TarmIo.Core.SizeDecoding
import TarmIo.Core.SizeEncoding
import TarmIo.Foundation.Feeding

/-!
# Feeding the size decoder piece by piece

A user hands bytes over by `add_byte` and `add_bytes` in any mixture. The encoded
word collects the bytes at its upper end while a size is being read, and is moved
to the lower end when the size is complete; `Carries` follows it through the
stages that `Holds` distinguishes on the decoded word.
-/

namespace TarmIo.Core.VariableLengthSize

open Foundation

/-! ## The encoded word while a size is read -/

variable {s : VariableLengthSize} {bs : List UInt8} {p : Progress}

/-- The encoded word after the bytes `bs` were taken. In the failed stage only
its empty last byte matters. -/
def Carries (s : VariableLengthSize) (bs : List UInt8) : Progress → Prop
  | .reading count _ =>
      bs.length = count ∧ s.encodedValue.toNat = ofBytesLE bs * 256 ^ (8 - count)
  | .complete count _ => bs.length = count ∧ s.encodedValue.toNat = ofBytesLE bs
  | .failed => s.encodedValue.toNat % 256 = 0

theorem carries_fresh : Carries {} [] (.reading 0 0) := ⟨rfl, rfl⟩

private theorem encoded_next {s : VariableLengthSize} {bs : List UInt8} {count v : Nat}
    (hlt : count < 8) (h : Carries s bs (.reading count v)) (b : UInt8) :
    ((s.encodedValue >>> 8) ||| (b.toUInt64 <<< 56)).toNat =
      ofBytesLE (bs ++ [b]) * 256 ^ (7 - count) := by
  obtain ⟨hlen, he⟩ := h
  have hb := b.toNat_lt
  have hbs : ofBytesLE bs < 256 ^ count := hlen ▸ ofBytesLE_lt bs
  have hpow : (256 : Nat) ^ (8 - count) = 256 * 256 ^ (7 - count) := by
    rw [show 8 - count = (7 - count) + 1 by omega, Nat.pow_succ, Nat.mul_comm]
  have hseven : (256 : Nat) ^ count * 256 ^ (7 - count) = 2 ^ 56 := by
    rw [← Nat.pow_add, show count + (7 - count) = 7 by omega]
    decide
  have hlow : (s.encodedValue >>> 8).toNat = ofBytesLE bs * 256 ^ (7 - count) := by
    rw [word_shiftRight _ _ 8 rfl (by decide), he, hpow]
    change ofBytesLE bs * (256 * 256 ^ (7 - count)) / 256 = _
    rw [Nat.mul_left_comm, Nat.mul_div_cancel_left _ (by decide)]
  have hfit : ofBytesLE bs * 256 ^ (7 - count) < 2 ^ 56 := by
    rw [← hseven]
    exact Nat.mul_lt_mul_of_pos_right hbs (Nat.pow_pos (by decide))
  have hhigh : (b.toUInt64 <<< 56).toNat = 2 ^ 56 * b.toNat := by
    rw [word_shiftLeft _ _ 56 rfl (by decide) (by rw [UInt8.toNat_toUInt64]; omega),
      UInt8.toNat_toUInt64, Nat.mul_comm]
  rw [word_or_high _ _ 56 _ (by rw [hlow]; exact hfit) hhigh, hlow, hhigh, ofBytesLE_append,
    hlen, ← hseven]
  simp only [ofBytesLE_cons, ofBytesLE_nil]
  ring

/-- The shift that brings the bytes of a complete size to the lower end. -/
private theorem closing_shift {c : UInt64} {count : Nat} (hc : c.toNat = count) (h : count < 8) :
    (8 * (8 - c - 1)).toNat = 8 * (7 - count) := by
  have hword : c = UInt64.ofNat count := by rw [← hc, UInt64.ofNat_toNat]
  subst hword
  clear hc
  interval_cases count <;> rfl

/-- `add_byte` puts the byte it takes behind the bytes it took before. -/
theorem addByte_carries (h : Holds s p) (hc : Carries s bs p) (b : UInt8) :
    Carries (s.addByte b).2 (if (s.addByte b).1 then bs ++ [b] else bs) (p.next 8 b).2 := by
  cases p with
  | reading count v =>
      have hlt : count < 8 := h.1
      have hword := encoded_next hlt hc b
      obtain ⟨hlen, he⟩ := hc
      have hlen' : (bs ++ [b]).length = count + 1 := by simp [hlen]
      by_cases hb : Marked b
      · by_cases hl : count + 1 = 8
        · rw [addByte_eighth h hb hl, Progress.next, if_pos hb, if_pos hl]
          change s.encodedValue.toNat % 256 = 0
          rw [he, show 8 - count = 1 by omega, Nat.pow_one, Nat.mul_mod_left]
        · rw [addByte_marked h hb hl, Progress.next, if_pos hb, if_neg hl]
          refine ⟨hlen', ?_⟩
          rw [show 8 - (count + 1) = 7 - count by omega]
          exact hword
      · rw [addByte_unmarked h hb, Progress.next, if_neg hb]
        refine ⟨hlen', ?_⟩
        have hshift := closing_shift (decodedCount_reading h) hlt
        have hpow : (2 : Nat) ^ (8 * (7 - count)) = 256 ^ (7 - count) := by
          rw [Nat.pow_mul]
        simp only
        rw [word_shiftRight _ _ _ hshift (by omega), hword, hpow,
          Nat.mul_div_cancel _ (Nat.pow_pos (by decide))]
        simp
  | complete count v =>
      rw [addByte_complete h]
      exact hc
  | failed =>
      rw [addByte_failed h]
      exact hc

/-- `add_bytes` puts the bytes it takes behind the ones taken before. -/
theorem addBytesLoop_carries (h : Holds s p) (hc : Carries s bs p) (piece : List UInt8) :
    Carries (s.addBytesLoop piece).2 (bs ++ piece.take (s.addBytesLoop piece).1)
      (p.scan 8 piece).2 := by
  induction piece generalizing s p bs with
  | nil => simpa [addBytesLoop, Progress.scan] using hc
  | cons b piece ih =>
      obtain ⟨hflag, hnext⟩ := addByte_refines h b
      have hcarry := addByte_carries h hc b
      by_cases hb : (p.next 8 b).1
      · simp only [hflag, hb, if_true] at hcarry
        have hrec := ih hnext hcarry
        simpa only [addBytesLoop, Progress.scan, hflag, hb, if_true, List.take_succ_cons,
          List.append_assoc, List.singleton_append] using hrec
      · simp only [hflag, hb, if_false, Bool.false_eq_true] at hcarry
        simpa only [addBytesLoop, Progress.scan, hflag, hb, if_false, Bool.false_eq_true,
          List.take_zero, List.append_nil] using hcarry

/-! ## Any mixture of calls -/

inductive Call where
  | addByte (b : UInt8)
  | addBytes (bs : Option (List UInt8))
deriving DecidableEq

def Call.bytes : Call → List UInt8
  | .addByte b => [b]
  | .addBytes bs => bs.getD []

def call (s : VariableLengthSize) : Call → VariableLengthSize × List UInt8
  | .addByte b => ((s.addByte b).2, if (s.addByte b).1 then [b] else [])
  | .addBytes bs => ((s.addBytes bs).2, (bs.getD []).take (s.addBytes bs).1)

def stream (calls : List Call) : List UInt8 := calls.flatMap Call.bytes

theorem call_addBytesLoop (s : VariableLengthSize) (c : Call) :
    s.call c = ((s.addBytesLoop c.bytes).2, c.bytes.take (s.addBytesLoop c.bytes).1) := by
  cases c with
  | addByte b =>
      by_cases hb : (s.addByte b).1 = true
      · simp [call, Call.bytes, addBytesLoop, hb]
      · simp [call, Call.bytes, addBytesLoop, hb]
  | addBytes bs =>
      cases bs with
      | none => rfl
      | some bs => rfl

/-- However the bytes are cut into calls, the decoder makes the reader's scan of
the whole stream and accepts what the reader takes. -/
theorem calls_refine (h : Holds s p) (hc : Carries s bs p) (calls : List Call) :
    Holds (feed call s calls).1 (p.scan 8 (stream calls)).2 ∧
      Carries (feed call s calls).1 (bs ++ (feed call s calls).2)
        (p.scan 8 (stream calls)).2 ∧
      (feed call s calls).2 = (stream calls).take (p.scan 8 (stream calls)).1 := by
  induction calls generalizing s bs p with
  | nil => simpa [stream, Progress.scan] using ⟨h, hc⟩
  | cons c calls ih =>
      obtain ⟨hcount, hholds⟩ := addBytesLoop_refines h c.bytes
      have hcarry := addBytesLoop_carries h hc c.bytes
      obtain ⟨hstate, htaken⟩ := Progress.scan_append 8 p c.bytes (stream calls)
      have hrec := ih hholds hcarry
      have hstream : stream (c :: calls) = c.bytes ++ stream calls := List.flatMap_cons
      rw [hstream, hstate, htaken, feed_cons, call_addBytesLoop]
      refine ⟨hrec.1, ?_, ?_⟩
      · rw [← List.append_assoc]
        exact hrec.2.1
      · rw [hrec.2.2, hcount]

/-! ## What the decoder says -/

variable {init rest : List UInt8} {last : UInt8} {count v : Nat} {d : VariableLengthSize}

/-- The list starts with a terminated field of `k` bytes that fits the limit. -/
structure StartsWithField (bs : List UInt8) (k : Nat) : Prop where
  pos : 1 ≤ k
  le : k ≤ 8
  marked : ∀ b ∈ bs.take (k - 1), Marked b
  last : ∃ b ∈ bs[k - 1]?, ¬ Marked b

def Overlong (bs : List UInt8) : Prop := 8 ≤ bs.length ∧ ∀ b ∈ bs.take 8, Marked b

theorem StartsWithField.of_append (hinit : ∀ b ∈ init, Marked b) (hlast : ¬ Marked last)
    (hlen : init.length < 8) :
    StartsWithField (init ++ last :: rest) (init.length + 1) where
  pos := by omega
  le := by omega
  marked := by simpa using hinit
  last := ⟨last, by simp, hlast⟩

theorem Overlong.of_append {b : UInt8} (hinit : ∀ b ∈ init, Marked b) (hb : Marked b)
    (hlen : init.length = 7) : Overlong (init ++ b :: rest) := by
  constructor
  · simp only [List.length_append, List.length_cons]
    omega
  · rw [show 8 = init.length + 1 by omega, List.take_length_add_append, List.take_succ_cons,
      List.take_zero]
    intro x hx
    rcases List.mem_append.mp hx with h | h
    · exact hinit x h
    · rwa [List.mem_singleton.mp h]

/-- The first unmarked byte is in one place only. -/
theorem StartsWithField.unique {j k : Nat} (hj : StartsWithField bs j) (hk : StartsWithField bs k) :
    j = k := by
  have least : ∀ {a b : Nat}, StartsWithField bs a → StartsWithField bs b → ¬ a < b := by
    intro a b ha hb hlt
    obtain ⟨last, hmem, hlast⟩ := ha.last
    obtain ⟨hbound, hget⟩ := List.getElem?_eq_some_iff.mp hmem
    apply hlast
    apply hb.marked
    rw [← hget]
    have hpos := ha.pos
    exact List.mem_take_iff_getElem.mpr ⟨a - 1, by omega, rfl⟩
  have h1 := least hj hk
  have h2 := least hk hj
  omega

theorem StartsWithField.not_overlong {k : Nat} (h : StartsWithField bs k) : ¬ Overlong bs := by
  rintro ⟨_, hall⟩
  obtain ⟨last, hmem, hlast⟩ := h.last
  obtain ⟨hbound, hget⟩ := List.getElem?_eq_some_iff.mp hmem
  have hle := h.le
  have hpos := h.pos
  apply hlast
  apply hall
  rw [← hget]
  exact List.mem_take_iff_getElem.mpr ⟨k - 1, by omega, rfl⟩

/-- With the low byte of the encoded word empty, no count is announced. -/
theorem bytesCount_eq_zero (he : s.encodedValue.toNat % 256 = 0) (hc : s.isComplete = false) :
    s.bytesCount = 0 := by
  have hlow : ((0x8080808080808080 : UInt64) &&& s.encodedValue).toNat % 2 ^ 8 = 0 := by
    rw [UInt64.toNat_and, Nat.and_mod_two_pow, he]
    exact Nat.and_zero _
  have hne : ∀ m : UInt64, m.toNat % 2 ^ 8 ≠ 0 →
      ¬ (0x8080808080808080 : UInt64) &&& s.encodedValue = m := by
    rintro m hm rfl
    exact hm hlow
  unfold bytesCount
  simp [hc, hne 0x80 (by decide), hne 0x8080 (by decide), hne 0x808080 (by decide),
    hne 0x80808080 (by decide), hne 0x8080808080 (by decide), hne 0x808080808080 (by decide),
    hne 0x80808080808080 (by decide)]

theorem bytesCount_reading (h : Holds s (.reading count v)) (hc : Carries s bs (.reading count v)) :
    s.bytesCount = 0 := by
  apply bytesCount_eq_zero ?_ (isComplete_reading h)
  have hlt := h.1
  rw [hc.2, show 8 - count = (7 - count) + 1 by omega, Nat.pow_succ, ← Nat.mul_assoc,
    Nat.mul_mod_left]

structure Outcome (d : VariableLengthSize) (accepted : List UInt8) (p : Progress) : Prop where
  holds : Holds d p
  carries : Carries d accepted p

theorem Outcome.complete {init : List UInt8} {count : Nat}
    (h : Outcome d (init ++ [last]) (.complete count (groupsFrom 0 (init ++ [last]))))
    (hinit : ∀ b ∈ init, Marked b) (hlast : ¬ Marked last) :
    d.isComplete = true ∧ d.fail = false ∧ d.value.toNat = groupsFrom 0 (init ++ [last]) ∧
      d.bytesCount = init.length + 1 ∧ d.bytes.take (init.length + 1) = init ++ [last] := by
  have hcomplete := isComplete_complete h.holds
  have hfield : IsField (init ++ [last]) (groupsFrom 0 (init ++ [last])) :=
    ⟨⟨init, last, rfl, hinit, hlast⟩, rfl⟩
  have hlen : (init ++ [last]).length ≤ 8 := by
    rw [h.carries.1]
    exact h.holds.1
  have hbytes := take_bytesLE_ofBytesLE (init ++ [last]) 8 hlen
  rw [← h.carries.2, ← bytes_eq, List.length_append, List.length_singleton] at hbytes
  refine ⟨hcomplete, fail_complete h.holds, value_complete h.holds, ?_, hbytes⟩
  rw [bytesCount_of_field hfield hlen h.carries.2 hcomplete, List.length_append,
    List.length_singleton]

theorem Outcome.reading {accepted : List UInt8} (h : Outcome d accepted (.reading count v)) :
    d.isComplete = false ∧ d.fail = false ∧ d.value = invalidValue ∧ d.bytesCount = 0 := by
  have hcomplete := isComplete_reading h.holds
  exact ⟨hcomplete, fail_reading h.holds, by simp [value, hcomplete],
    bytesCount_reading h.holds h.carries⟩

/-- Where a decoder stands that was given the stream `bs`. -/
inductive Stage (d : VariableLengthSize) (accepted : List UInt8) : List UInt8 → Prop
  | reading {bs : List UInt8} {count v : Nat} (out : Outcome d accepted (.reading count v))
      (marked : ∀ b ∈ bs, Marked b) (short : bs.length < 8) (all : accepted = bs) :
      Stage d accepted bs
  | complete {init rest : List UInt8} {last : UInt8} {count : Nat}
      (out : Outcome d (init ++ [last]) (.complete count (groupsFrom 0 (init ++ [last]))))
      (marked : ∀ b ∈ init, Marked b) (ends : ¬ Marked last) (short : init.length < 8)
      (taken : accepted = init ++ [last]) : Stage d accepted (init ++ last :: rest)
  | failed {init rest : List UInt8} {b : UInt8} (out : Outcome d accepted .failed)
      (marked : ∀ b ∈ init, Marked b) (broken : Marked b) (full : init.length = 7)
      (taken : accepted = init) : Stage d accepted (init ++ b :: rest)

/-- Every way of feeding a reset decoder ends in a stage that its stream alone
determines. A fresh decoder is the reset of itself. -/
theorem decoder_stage (s : VariableLengthSize) (calls : List Call) :
    Stage (feed call s.reset calls).1 (feed call s.reset calls).2 (stream calls) := by
  obtain ⟨hholds, hcarries, hacc⟩ :=
    calls_refine (holds_reset s) (show Carries s.reset [] _ from carries_fresh) calls
  rw [List.nil_append] at hcarries
  have hout : Outcome (feed call s.reset calls).1 (feed call s.reset calls).2
      ((Progress.reading 0 0).scan 8 (stream calls)).2 := ⟨hholds, hcarries⟩
  generalize (feed call s.reset calls).1 = d, (feed call s.reset calls).2 = accepted,
    stream calls = bs at hout hacc
  rcases Progress.scan_reading (by decide : 0 < 8) bs with
    ⟨c, v, hscan, hc, _, hlt, hall⟩ | ⟨init, last, rest, rfl, hinit, hlast, hlt, hscan⟩ |
    ⟨init, e, rest, rfl, hinit, he, hlen, hscan⟩
  · rw [hscan] at hout hacc
    rw [List.take_length] at hacc
    exact .reading hout hall (by omega) hacc
  · rw [hscan] at hout hacc
    rw [List.take_length_add_append, List.take_succ_cons, List.take_zero] at hacc
    subst hacc
    exact .complete hout hinit hlast (by omega) rfl
  · rw [hscan] at hout hacc
    rw [List.take_left] at hacc
    exact .failed hout hinit he (by omega) hacc

/-- Whatever pieces a stream is fed in, a reset decoder is complete exactly when
the stream starts with a terminated field, has failed exactly when it starts with
eight marked bytes, and otherwise has accepted everything and reports nothing. -/
theorem decoder_follows_stream (s : VariableLengthSize) (calls : List Call) :
    let d := (feed call s.reset calls).1
    let accepted := (feed call s.reset calls).2
    let bs := stream calls
    (d.isComplete = true ↔ ∃ k, StartsWithField bs k) ∧
    (∀ k, StartsWithField bs k →
      accepted = bs.take k ∧ d.fail = false ∧ d.value.toNat = groupsFrom 0 (bs.take k) ∧
        d.bytesCount = k ∧ d.bytes.take k = bs.take k) ∧
    (d.fail = true ↔ Overlong bs) ∧
    (Overlong bs → accepted = bs.take 7 ∧ d.isComplete = false) ∧
    ((¬ ∃ k, StartsWithField bs k) → ¬ Overlong bs →
      accepted = bs ∧ d.isComplete = false ∧ d.fail = false ∧ d.value = invalidValue ∧
        d.bytesCount = 0) := by
  intro d accepted bs
  have hstage : Stage d accepted bs := decoder_stage s calls
  clear_value d accepted bs
  cases hstage with
  | reading out marked short all =>
      obtain ⟨h1, h2, h3, h4⟩ := out.reading
      have hnone : ¬ ∃ k, StartsWithField bs k := by
        rintro ⟨k, hk⟩
        obtain ⟨b, hmem, hb⟩ := hk.last
        exact hb (marked b (List.mem_of_getElem? hmem))
      have hshort : ¬ Overlong bs := fun h => absurd h.1 (by omega)
      refine ⟨by simp [h1, hnone], fun k hk => (hnone ⟨k, hk⟩).elim, by simp [h2, hshort],
        fun h => (hshort h).elim, fun _ _ => ⟨all, h1, h2, h3, h4⟩⟩
  | @complete init rest last _ out marked ends short taken =>
      have hfield : StartsWithField (init ++ last :: rest) (init.length + 1) :=
        .of_append marked ends short
      have htake : (init ++ last :: rest).take (init.length + 1) = init ++ [last] := by
        rw [List.take_length_add_append, List.take_succ_cons, List.take_zero]
      obtain ⟨h1, h2, h3, h4, h5⟩ := out.complete marked ends
      refine ⟨by simp [h1, show ∃ k, StartsWithField (init ++ last :: rest) k from ⟨_, hfield⟩],
        ?_, by simp [h2, hfield.not_overlong], fun h => (hfield.not_overlong h).elim,
        fun h => (h ⟨_, hfield⟩).elim⟩
      intro k hk
      obtain rfl := hk.unique hfield
      rw [htake]
      exact ⟨taken, h2, h3, h4, h5⟩
  | @failed init rest b out marked broken full taken =>
      have hover : Overlong (init ++ b :: rest) := .of_append marked broken full
      have hnone : ¬ ∃ k, StartsWithField (init ++ b :: rest) k :=
        fun ⟨_, hk⟩ => hk.not_overlong hover
      have h1 := isComplete_failed out.holds
      have h2 := fail_failed out.holds
      refine ⟨by simp [h1, hnone], fun k hk => (hnone ⟨k, hk⟩).elim, by simp [h2, hover],
        fun _ => ⟨?_, h1⟩, fun _ h => (h hover).elim⟩
      rw [taken, ← full, List.take_left]

end TarmIo.Core.VariableLengthSize
