import Mathlib.Data.Nat.Digits.Lemmas

/-!
# Marked seven-bit groups

A number is written as bytes of seven value bits, most significant group first;
the top bit marks every byte but the last. Fields need not be minimal: leading
groups may be zero. `Progress` is the reader of such fields, one byte at a time
and with a limit on their length.
-/

namespace TarmIo.Foundation

variable {n : Nat} {xs bs : List UInt8}

def Marked (b : UInt8) : Prop := 128 ≤ b.toNat

instance (b : UInt8) : Decidable (Marked b) := inferInstanceAs (Decidable (128 ≤ b.toNat))

/-- Continue a big-endian value by the value bits of further bytes. -/
def groupsFrom (acc : Nat) (bs : List UInt8) : Nat :=
  bs.foldl (fun v b => v * 128 + b.toNat % 128) acc

/-- A complete field with value `n`. -/
structure IsField (bs : List UInt8) (n : Nat) : Prop where
  shape : ∃ init last, bs = init ++ [last] ∧ (∀ b ∈ init, Marked b) ∧ ¬ Marked last
  value : groupsFrom 0 bs = n

@[simp] theorem groupsFrom_nil (acc : Nat) : groupsFrom acc [] = acc := rfl

@[simp] theorem groupsFrom_cons (acc : Nat) (b : UInt8) (bs : List UInt8) :
    groupsFrom acc (b :: bs) = groupsFrom (acc * 128 + b.toNat % 128) bs := rfl

theorem groupsFrom_append (acc : Nat) (xs ys : List UInt8) :
    groupsFrom acc (xs ++ ys) = groupsFrom (groupsFrom acc xs) ys := by
  simp [groupsFrom]

theorem groupsFrom_lt (bs : List UInt8) : groupsFrom 0 bs < 128 ^ bs.length := by
  induction bs using List.reverseRecOn with
  | nil => decide
  | append_singleton bs b ih =>
      rw [groupsFrom_append, List.length_append, List.length_singleton, Nat.pow_succ]
      simp only [groupsFrom_cons, groupsFrom_nil]
      omega

theorem IsField.ne_nil {bs : List UInt8} (h : IsField bs n) : bs ≠ [] := by
  obtain ⟨init, last, rfl, _, _⟩ := h.shape
  simp

/-- Part of a field is all of it or has every byte marked. -/
theorem IsField.eq_or_marked (h : IsField bs n) (hp : xs <+: bs) :
    xs = bs ∨ ∀ b ∈ xs, Marked b := by
  obtain ⟨init, last, rfl, hinit, _⟩ := h.shape
  have hle := hp.length_le
  rw [List.length_append, List.length_singleton] at hle
  by_cases hlen : xs.length = init.length + 1
  · exact .inl (hp.eq_of_length (by simpa using hlen))
  · right
    intro b hb
    have hinner := List.prefix_of_prefix_length_le hp (List.prefix_append init [last]) (by omega)
    exact hinit b (hinner.mem hb)

/-- No field is part of another one. -/
theorem IsField.eq_of_part {m n : Nat} (hx : IsField xs m) (h : IsField bs n) (hp : xs <+: bs) :
    xs = bs := by
  rcases h.eq_or_marked hp with heq | hall
  · exact heq
  · obtain ⟨init, last, rfl, _, hlast⟩ := hx.shape
    exact absurd (hall last (by simp)) hlast

/-! ## The incremental reader -/

variable {limit : Nat}

/-- What is known after some bytes: how many were read with which value so far,
a finished field, or a field that exceeds the limit. -/
inductive Progress where
  | reading (count value : Nat)
  | complete (count value : Nat)
  | failed
deriving DecidableEq

/-- One byte. The flag says that the byte was taken; the byte that breaks the
limit is not. -/
def Progress.next (limit : Nat) : Progress → UInt8 → Bool × Progress
  | .reading count value, b =>
      if Marked b then
        if count + 1 = limit then (false, .failed)
        else (true, .reading (count + 1) (value * 128 + b.toNat % 128))
      else (true, .complete (count + 1) (value * 128 + b.toNat % 128))
  | .complete count value, _ => (false, .complete count value)
  | .failed, _ => (false, .failed)

/-- Read bytes until one is not taken; the number of bytes taken is returned. -/
def Progress.scan (limit : Nat) : Progress → List UInt8 → Nat × Progress
  | p, [] => (0, p)
  | p, b :: bs =>
      if (p.next limit b).1 then
        let r := Progress.scan limit (p.next limit b).2 bs
        (r.1 + 1, r.2)
      else (0, (p.next limit b).2)

/-- From an unfinished field the reader takes every byte and stays unfinished, or
takes the rest of the field and stops behind it, or meets the byte that breaks
the limit and stops before it. -/
theorem Progress.scan_reading {count value : Nat} (hc : count < limit) (bs : List UInt8) :
    (∃ c v, (Progress.reading count value).scan limit bs = (bs.length, .reading c v) ∧
        c = count + bs.length ∧ v = groupsFrom value bs ∧ c < limit ∧ ∀ b ∈ bs, Marked b) ∨
    (∃ init last rest, bs = init ++ last :: rest ∧ (∀ b ∈ init, Marked b) ∧ ¬ Marked last ∧
        count + init.length < limit ∧
        (Progress.reading count value).scan limit bs =
          (init.length + 1, .complete (count + init.length + 1)
            (groupsFrom value (init ++ [last])))) ∨
    (∃ init b rest, bs = init ++ b :: rest ∧ (∀ b ∈ init, Marked b) ∧ Marked b ∧
        count + init.length + 1 = limit ∧
        (Progress.reading count value).scan limit bs = (init.length, .failed)) := by
  induction bs generalizing count value with
  | nil => exact .inl ⟨count, value, by simp [scan, hc]⟩
  | cons b bs ih =>
      by_cases hb : Marked b
      · by_cases hl : count + 1 = limit
        · right; right
          exact ⟨[], b, bs, rfl, by simp, hb, by simpa using hl, by simp [scan, next, hb, hl]⟩
        · have hnext : (Progress.reading count value).next limit b =
              (true, .reading (count + 1) (value * 128 + b.toNat % 128)) := by
            simp [next, hb, hl]
          have hcount : count + 1 < limit := by omega
          rcases @ih (count + 1) (value * 128 + b.toNat % 128) hcount with
            ⟨c, v, hscan, rfl, rfl, hlt, hall⟩ |
            ⟨init, last, rest, rfl, hinit, hlast, hlt, hscan⟩ |
            ⟨init, e, rest, rfl, hinit, he, hlt, hscan⟩
          · left
            refine ⟨_, _, ?_, ?_, rfl, hlt, List.forall_mem_cons.mpr ⟨hb, hall⟩⟩
            · simp [scan, hnext, hscan]
            · simp only [List.length_cons]; omega
          · right; left
            refine ⟨b :: init, last, rest, rfl, List.forall_mem_cons.mpr ⟨hb, hinit⟩, hlast,
              ?_, ?_⟩
            · simp only [List.length_cons]; omega
            · simp only [scan, hnext, if_true, hscan, List.length_cons, List.cons_append,
                groupsFrom_cons]
              congr 2
              omega
          · right; right
            refine ⟨b :: init, e, rest, rfl, List.forall_mem_cons.mpr ⟨hb, hinit⟩, he, ?_, ?_⟩
            · simp only [List.length_cons]; omega
            · simp [scan, hnext, hscan]
      · right; left
        refine ⟨[], b, bs, rfl, by simp, hb, by simpa using hc, ?_⟩
        have hstop : Progress.scan limit
            (.complete (count + 1) (value * 128 + b.toNat % 128)) bs =
              (0, .complete (count + 1) (value * 128 + b.toNat % 128)) := by
          cases bs <;> simp [scan, next]
        simp [scan, next, hb, hstop]

def Progress.Settled : Progress → Prop
  | .reading _ _ => False
  | .complete _ _ => True
  | .failed => True

variable {p : Progress}

theorem Progress.scan_settled (h : p.Settled) (bs : List UInt8) : p.scan limit bs = (0, p) := by
  cases p with
  | reading => exact h.elim
  | complete => cases bs <;> rfl
  | failed => cases bs <;> rfl

/-- A byte is refused only by a reader that refuses every later one. -/
theorem Progress.settled_of_refused {b : UInt8} (h : (p.next limit b).1 = false) :
    (p.next limit b).2.Settled := by
  cases p with
  | reading count v =>
      by_cases hb : Marked b
      · by_cases hl : count + 1 = limit
        · simp [next, hb, hl, Settled]
        · simp [next, hb, hl] at h
      · simp [next, hb] at h
  | complete => trivial
  | failed => trivial

/-- Reading in two pieces: what the first piece leaves is all the second one needs. -/
theorem Progress.scan_append (limit : Nat) (p : Progress) (xs ys : List UInt8) :
    (p.scan limit (xs ++ ys)).2 = ((p.scan limit xs).2.scan limit ys).2 ∧
      (xs ++ ys).take (p.scan limit (xs ++ ys)).1 =
        xs.take (p.scan limit xs).1 ++ ys.take ((p.scan limit xs).2.scan limit ys).1 := by
  induction xs generalizing p with
  | nil => simp [scan]
  | cons b xs ih =>
      by_cases hb : (p.next limit b).1 = true
      · obtain ⟨hstate, htaken⟩ := ih (p.next limit b).2
        simp only [List.cons_append, scan, hb, if_true]
        exact ⟨hstate, by simpa using htaken⟩
      · have hsettled := settled_of_refused (Bool.eq_false_iff.mpr hb)
        simp only [List.cons_append, scan, hb, if_false, Bool.false_eq_true,
          scan_settled hsettled, List.take_zero, List.append_nil, and_self]

/-! ## The minimal field of a number -/

/-- The shortest field: no leading zero group. -/
def field (n : Nat) : List UInt8 :=
  ((Nat.digits 128 (n / 128)).reverse.map fun d => UInt8.ofNat (d + 128)) ++
    [UInt8.ofNat (n % 128)]

private theorem groupsFrom_marked (ds : List Nat) (hd : ∀ d ∈ ds, d < 128) :
    groupsFrom 0 (ds.reverse.map fun d => UInt8.ofNat (d + 128)) = Nat.ofDigits 128 ds := by
  induction ds with
  | nil => rfl
  | cons d ds ih =>
      have hlt : d < 128 := hd d List.mem_cons_self
      have htail := ih fun x hx => hd x (List.mem_cons_of_mem d hx)
      rw [List.reverse_cons, List.map_append, groupsFrom_append, htail]
      simp only [List.map_cons, List.map_nil, groupsFrom_cons, groupsFrom_nil,
        UInt8.toNat_ofNat', Nat.ofDigits_cons]
      omega

theorem field_isField (n : Nat) : IsField (field n) n := by
  have hd : ∀ d ∈ Nat.digits 128 (n / 128), d < 128 :=
    fun d h => Nat.digits_lt_base (by decide) h
  constructor
  · refine ⟨_, _, rfl, ?_, ?_⟩
    · intro b hb
      obtain ⟨d, hmem, rfl⟩ := List.mem_map.mp hb
      have hlt := hd d (List.mem_reverse.mp hmem)
      simp only [Marked, UInt8.toNat_ofNat']
      omega
    · simp only [Marked, UInt8.toNat_ofNat']
      omega
  · rw [field, groupsFrom_append, groupsFrom_marked _ hd, Nat.ofDigits_digits]
    simp only [groupsFrom_cons, groupsFrom_nil, UInt8.toNat_ofNat']
    omega

theorem field_length (n : Nat) : (field n).length = (Nat.digits 128 (n / 128)).length + 1 := by
  simp [field]

theorem field_length_le {n k : Nat} (h : n < 128 ^ (k + 1)) : (field n).length ≤ k + 1 := by
  have hdiv : n / 128 < 128 ^ k := by
    rw [Nat.div_lt_iff_lt_mul (by decide)]
    rwa [Nat.pow_succ] at h
  rw [field_length]
  have hlen := (Nat.digits_length_le_iff (by decide : 1 < 128) (n / 128)).mpr hdiv
  omega

end TarmIo.Foundation
