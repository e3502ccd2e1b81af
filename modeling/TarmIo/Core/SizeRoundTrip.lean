import TarmIo.Core.IncrementalDecoding

/-!
# Encoding a size and reading it back

Every integer constructor of `VariableLengthSize` widens its argument and passes
it on, so all of them are one function of the number given. The bytes of its
object are the minimal field of that number: a decoder takes them to the last one
and no other size starts with them.
-/

namespace TarmIo.Core.VariableLengthSize

open Foundation

/-! ## The constructors -/

/-- The argument of a constructor, under its type in the source. Plain `char` is
signed on some hosts and unsigned on others. -/
inductive Argument where
  | unsignedChar (value : UInt8)
  | unsignedShort (value : UInt16)
  | unsignedInt (value : UInt32)
  | unsignedLong (value : UInt64)
  | unsignedLongLong (value : UInt64)
  | charSigned (value : Int8)
  | charUnsigned (value : UInt8)
  | signedChar (value : Int8)
  | short (value : Int16)
  | int (value : Int32)
  | long (value : Int64)
  | longLong (value : Int64)
deriving DecidableEq

def Argument.number : Argument → Int
  | .unsignedChar value => value.toNat
  | .unsignedShort value => value.toNat
  | .unsignedInt value => value.toNat
  | .unsignedLong value => value.toNat
  | .unsignedLongLong value => value.toNat
  | .charSigned value => value.toInt
  | .charUnsigned value => value.toNat
  | .signedChar value => value.toInt
  | .short value => value.toInt
  | .int value => value.toInt
  | .long value => value.toInt
  | .longLong value => value.toInt

def construct : Argument → VariableLengthSize
  | .unsignedChar value => ofUInt8 value
  | .unsignedShort value => ofUInt16 value
  | .unsignedInt value => ofUInt32 value
  | .unsignedLong value => ofUInt64 value
  | .unsignedLongLong value => ofUInt64 value
  | .charSigned value => ofInt8 value
  | .charUnsigned value => ofInt64 value.toUInt64.toInt64
  | .signedChar value => ofInt8 value
  | .short value => ofInt16 value
  | .int value => ofInt32 value
  | .long value => ofInt64 value
  | .longLong value => ofInt64 value

def wire (s : VariableLengthSize) : List UInt8 := s.bytes.take s.bytesCount

def Argument.Fits (a : Argument) : Prop := 0 ≤ a.number ∧ a.number ≤ 2 ^ 56 - 1

instance (a : Argument) : Decidable a.Fits := inferInstanceAs (Decidable (_ ∧ _))

structure Encodes (s : VariableLengthSize) (n : Nat) : Prop where
  complete : s.isComplete = true
  value : s.value.toNat = n
  wire : s.wire = field n
  count : s.bytesCount = (field n).length

theorem encodes_ofUInt64 {v : UInt64} (hv : v.toNat < 2 ^ 56) : Encodes (ofUInt64 v) v.toNat := by
  have hdecoded : (ofUInt64 v).decodedValue.toNat = v.toNat + 2 ^ 63 := by
    rw [ofUInt64_eq hv]
    exact word_or_high _ _ 63 1 (by omega) rfl
  have hcomplete : (ofUInt64 v).isComplete = true := by
    rw [isComplete_eq, hdecoded, decide_eq_true_iff]
    omega
  have hwire := ofUInt64_wire hv
  refine ⟨hcomplete, ?_, hwire, ?_⟩
  · rw [VariableLengthSize.value, if_pos hcomplete, word_and_low _ _ 56 rfl, hdecoded]
    omega
  · have hcount := bytesCount_le (ofUInt64 v)
    have hlen : (ofUInt64 v).bytes.length = 8 := rfl
    rw [← hwire, List.length_take, hlen]
    omega

theorem isComplete_empty : ({} : VariableLengthSize).isComplete = false := by decide

theorem bytesCount_empty : ({} : VariableLengthSize).bytesCount = 0 := by decide

/-- The signed constructors refuse a negative number and treat any other one as
the unsigned constructors do. -/
theorem ofInt64_eq (v : Int64) :
    ofInt64 v = if 0 ≤ v.toInt then ofUInt64 v.toUInt64 else {} := by
  have hsign : 0 ≤ v ↔ 0 ≤ v.toInt := by
    rw [Int64.le_iff_toInt_le]
    rfl
  by_cases hv : 0 ≤ v.toInt
  · simp [ofInt64, ofUInt64, hsign, hv]
  · simp [ofInt64, hsign, hv]

theorem toUInt64_toNat {v : Int64} (h : 0 ≤ v.toInt) : (v.toUInt64.toNat : Int) = v.toInt := by
  rw [← Int64.toNat_toBitVec, Int64.toInt, BitVec.toInt_eq_toNat_cond]
  rw [Int64.toInt, BitVec.toInt_eq_toNat_cond] at h
  have hlt := v.toBitVec.isLt
  split at h
  · rw [if_pos ‹_›]
  · omega

/-- All constructors are one function of the number. -/
theorem construct_eq (a : Argument) :
    (∃ v : UInt64, (v.toNat : Int) = a.number ∧ construct a = ofUInt64 v) ∨
      (a.number < 0 ∧ construct a = {}) := by
  have signed : ∀ v : Int64,
      (∃ u : UInt64, (u.toNat : Int) = v.toInt ∧ ofInt64 v = ofUInt64 u) ∨
        (v.toInt < 0 ∧ ofInt64 v = {}) := by
    intro v
    by_cases hv : 0 ≤ v.toInt
    · exact .inl ⟨v.toUInt64, toUInt64_toNat hv, by rw [ofInt64_eq, if_pos hv]⟩
    · exact .inr ⟨by omega, by rw [ofInt64_eq, if_neg hv]⟩
  cases a with
  | unsignedChar value => exact .inl ⟨_, by simp [Argument.number], rfl⟩
  | unsignedShort value => exact .inl ⟨_, by simp [Argument.number], rfl⟩
  | unsignedInt value => exact .inl ⟨_, by simp [Argument.number], rfl⟩
  | unsignedLong value => exact .inl ⟨_, rfl, rfl⟩
  | unsignedLongLong value => exact .inl ⟨_, rfl, rfl⟩
  | charSigned value => simpa [Argument.number, construct, ofInt8] using signed value.toInt64
  | charUnsigned value =>
      have hnumber : value.toUInt64.toInt64.toInt = value.toNat := by
        have := value.toNat_lt
        rw [Int64.toInt, BitVec.toInt_eq_toNat_cond]
        simp
        omega
      simpa [Argument.number, construct, hnumber] using signed value.toUInt64.toInt64
  | signedChar value => simpa [Argument.number, construct, ofInt8] using signed value.toInt64
  | short value => simpa [Argument.number, construct, ofInt16] using signed value.toInt64
  | int value => simpa [Argument.number, construct, ofInt32] using signed value.toInt64
  | long value => exact signed value
  | longLong value => exact signed value

theorem construct_fits {a : Argument} (h : a.Fits) :
    Encodes (construct a) a.number.toNat := by
  obtain ⟨hlow, hhigh⟩ := h
  rcases construct_eq a with ⟨v, hv, heq⟩ | ⟨hneg, _⟩
  · rw [heq, show a.number.toNat = v.toNat by omega]
    exact encodes_ofUInt64 (by omega)
  · omega

theorem construct_unfit {a : Argument} (h : ¬ a.Fits) : construct a = {} := by
  rcases construct_eq a with ⟨v, hv, heq⟩ | ⟨_, heq⟩
  · rw [heq]
    apply ofUInt64_too_large
    unfold Argument.Fits at h
    omega
  · exact heq

/-! ## Reading back -/

/-- The bytes of a field complete a decoder, and no shorter part of them does. -/
theorem decode_field {bs : List UInt8} {n : Nat} (hf : IsField bs n) (hlen : bs.length ≤ 8)
    (s : VariableLengthSize) (calls : List Call) (hp : stream calls <+: bs) :
    ((feed call s.reset calls).1.isComplete = true ↔ stream calls = bs) ∧
      (stream calls = bs → (feed call s.reset calls).1.value.toNat = n) := by
  have hstage := decoder_stage s calls
  generalize (feed call s.reset calls).1 = d, (feed call s.reset calls).2 = accepted,
    stream calls = xs at hstage hp
  cases hstage with
  | reading out marked short all =>
      have hne : xs ≠ bs := by
        rintro rfl
        obtain ⟨init, last, rfl, _, hlast⟩ := hf.shape
        exact hlast (marked last (by simp))
      simp [out.reading.1, hne]
  | @complete init rest last count out marked ends short taken =>
      -- The part read so far holds an unmarked byte, so it is the whole field.
      have hall : init ++ last :: rest = bs := by
        rcases hf.eq_or_marked hp with heq | hmarked
        · exact heq
        · exact absurd (hmarked last (by simp)) ends
      have hinner : IsField (init ++ [last]) (groupsFrom 0 (init ++ [last])) :=
        ⟨⟨init, last, rfl, marked, ends⟩, rfl⟩
      have hwhole := hinner.eq_of_part hf (hall ▸ ⟨rest, by simp⟩)
      obtain ⟨hcomplete, _, hvalue, _, _⟩ := out.complete marked ends
      refine ⟨by simp [hcomplete, hall], fun _ => ?_⟩
      rw [hvalue, hwhole, hf.value]
  | @failed init rest b out marked broken full taken =>
      have hne : init ++ b :: rest ≠ bs := by
        intro hall
        have hrest : rest = [] := by
          rw [← hall, List.length_append, List.length_cons] at hlen
          exact List.eq_nil_of_length_eq_zero (by omega)
        obtain ⟨body, last, hshape, _, hlast⟩ := hf.shape
        rw [← hall, hrest] at hshape
        obtain ⟨_, hend⟩ := List.append_inj' hshape rfl
        exact hlast (by simpa [← List.singleton_inj.mp hend] using broken)
      simp [isComplete_failed out.holds, hne]

theorem number_lt_field (n : Nat) : n < 128 ^ (field n).length := by
  have h := groupsFrom_lt (field n)
  rwa [(field_isField n).value] at h

/-- The minimal field has the least length that can hold the number. -/
theorem field_length_le_of_lt {n k : Nat} (hk : 1 ≤ k) (h : n < 128 ^ k) :
    (field n).length ≤ k := by
  obtain ⟨j, rfl⟩ : ∃ j, k = j + 1 := ⟨k - 1, by omega⟩
  exact field_length_le h

/-- Whatever constructor a number is given to: if it can be encoded, the object
holds it in the least number of bytes and a decoder fed with these, in any pieces,
is complete with the last of them and not earlier; no other number's bytes start
with them; and if it cannot, the object stays empty. -/
theorem construct_round_trip (a : Argument) :
    (a.Fits →
      (construct a).isComplete = true ∧ ((construct a).value.toNat : Int) = a.number ∧
      1 ≤ (construct a).bytesCount ∧ a.number < 128 ^ (construct a).bytesCount ∧
      (∀ k, 1 ≤ k → a.number < 128 ^ k → (construct a).bytesCount ≤ k) ∧
      (∀ (s : VariableLengthSize) (calls : List Call), stream calls <+: (construct a).wire →
        ((feed call s.reset calls).1.isComplete = true ↔ stream calls = (construct a).wire) ∧
        (stream calls = (construct a).wire →
          ((feed call s.reset calls).1.value.toNat : Int) = a.number))) ∧
    (∀ b : Argument, a.Fits → b.Fits → a.number ≠ b.number →
      ¬ (construct a).wire <+: (construct b).wire) ∧
    (¬ a.Fits → (construct a).isComplete = false ∧ (construct a).bytesCount = 0) := by
  refine ⟨fun ha => ?_, fun b ha hb hne hp => ?_, fun ha => ?_⟩
  · obtain ⟨hcomplete, hvalue, hwire, hcount⟩ := construct_fits ha
    have hnumber : (a.number.toNat : Int) = a.number := Int.toNat_of_nonneg ha.1
    have hlt : a.number.toNat < 2 ^ 56 := by
      have := ha.2
      omega
    have hpos : 1 ≤ (field a.number.toNat).length := by
      rw [field_length]
      omega
    refine ⟨hcomplete, by rw [hvalue, hnumber], by rw [hcount]; exact hpos, ?_, ?_, ?_⟩
    · rw [hcount, ← hnumber]
      exact_mod_cast number_lt_field a.number.toNat
    · intro k hk hltk
      rw [hcount]
      apply field_length_le_of_lt hk
      rw [← hnumber] at hltk
      exact_mod_cast hltk
    · intro s calls hp
      rw [hwire] at hp ⊢
      have hdecode := decode_field (field_isField a.number.toNat) (field_length_le hlt) s calls hp
      refine ⟨hdecode.1, fun heq => ?_⟩
      rw [hdecode.2 heq, hnumber]
  · rw [(construct_fits ha).wire, (construct_fits hb).wire] at hp
    have heq := (field_isField _).eq_of_part (field_isField _) hp
    have hvalues : a.number.toNat = b.number.toNat := by
      rw [← (field_isField a.number.toNat).value, heq, (field_isField _).value]
    have h1 := ha.1
    have h2 := hb.1
    omega
  · rw [construct_unfit ha]
    exact ⟨isComplete_empty, bytesCount_empty⟩

end TarmIo.Core.VariableLengthSize
