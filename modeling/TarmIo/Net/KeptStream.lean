import TarmIo.Foundation.Execution
import TarmIo.Net.Framing

/-!
# Streams that repeat what is kept of them

The bytewise receiver again, now with the place that each payload byte has in its message. A stream
agrees with the messages that are kept of it when every later payload byte is the one that they have
at its place. Nothing here knows of a buffer.
-/

namespace TarmIo.Net

open Foundation

/-- The messages that the user keeps, chosen by their numbers. -/
def keptOf (keep : Nat → Bool) (messages : List (List UInt8)) : List (List UInt8) :=
  (messages.zipIdx.filter fun m => keep m.2).map Prod.fst

def messagesOf (rs : List Report) : List (List UInt8) := rs.filterMap Report.bytes

variable {keep : Nat → Bool} {message : List UInt8} {ms : List (List UInt8)}

theorem mem_keptOf_append_left (h : message ∈ keptOf keep ms) (new : List (List UInt8)) :
    message ∈ keptOf keep (ms ++ new) := by
  rw [keptOf, List.zipIdx_append, List.filter_append, List.map_append]
  exact List.mem_append_left _ h

theorem mem_of_mem_keptOf_append {new : List (List UInt8)}
    (h : message ∈ keptOf keep (ms ++ new)) : message ∈ keptOf keep ms ∨ message ∈ new := by
  rw [keptOf, List.zipIdx_append, List.filter_append, List.map_append] at h
  refine (List.mem_append.mp h).imp_right fun hnew => ?_
  obtain ⟨m, hm, rfl⟩ := List.mem_map.mp hnew
  exact List.fst_mem_of_mem_zipIdx (List.mem_of_mem_filter hm)

/-- The bytes that are written where a message lies are the bytes it has there. -/
def Matches (message : List UInt8) : Option (Nat × List UInt8) → Prop
  | none => True
  | some (offset, bytes) =>
      ∀ i < message.length, offset ≤ i → i < offset + bytes.length →
        bytes[i - offset]? = message[i]?

theorem matches_nil (message : List UInt8) (offset : Nat) :
    Matches message (some (offset, [])) := by
  intro i _ hle hlt
  simp only [List.length_nil, Nat.add_zero] at hlt
  omega

theorem matches_cons {offset : Nat} {b : UInt8} {bs : List UInt8} :
    Matches message (some (offset, b :: bs)) ↔
      (offset < message.length → message[offset]? = some b) ∧
        Matches message (some (offset + 1, bs)) := by
  constructor
  · intro h
    refine ⟨fun hlt => ?_, fun i hi hle hlt => ?_⟩
    · have hfirst := h offset hlt (Nat.le_refl _) (by simp)
      rw [Nat.sub_self] at hfirst
      exact hfirst.symm
    · have hrest := h i hi (by omega) (by rw [List.length_cons]; omega)
      rwa [show i - offset = i - (offset + 1) + 1 by omega, List.getElem?_cons_succ] at hrest
  · rintro ⟨hfirst, hrest⟩ i hi hle hlt
    rcases Nat.lt_or_eq_of_le hle with hmore | rfl
    · have hsame := hrest i hi hmore (by rw [List.length_cons] at hlt; omega)
      rwa [show i - offset = i - (offset + 1) + 1 by omega, List.getElem?_cons_succ]
    · rw [Nat.sub_self]
      exact (hfirst hi).symm

theorem matches_append {offset : Nat} {xs ys : List UInt8} :
    Matches message (some (offset, xs ++ ys)) ↔
      Matches message (some (offset, xs)) ∧ Matches message (some (offset + xs.length, ys)) := by
  induction xs generalizing offset with
  | nil => exact (and_iff_right (matches_nil message offset)).symm
  | cons x xs ih =>
      rw [List.cons_append, matches_cons, ih, matches_cons, and_assoc, List.length_cons,
        show offset + 1 + xs.length = offset + (xs.length + 1) by omega]

namespace Phase

/-- The place that a payload byte has in its message. The bytes from a rejected size on are taken
for payload as well. -/
def place (limit : Nat) (p : Phase) (b : UInt8) : Option Nat :=
  match p, (step limit p b).1 with
  | _, .failed dropped => some (dropped - 1)
  | .payload total got, _ => if total = 0 then none else some got.length
  | _, _ => none

def hear (limit : Nat) (x : Phase × List (List UInt8)) (b : UInt8) :
    Option (Phase × List (List UInt8)) :=
  some ((step limit x.1 b).1, x.2 ++ messagesOf (step limit x.1 b).2)

/-- A payload byte is the byte that each message kept before has at its place. -/
def Agrees (limit : Nat) (keep : Nat → Bool) (x : Phase × List (List UInt8)) (b : UInt8) : Prop :=
  ∀ i ∈ x.1.place limit b, ∀ message ∈ keptOf keep x.2, i < message.length → message[i]? = some b

instance (limit : Nat) (keep : Nat → Bool) (x : Phase × List (List UInt8)) (b : UInt8) :
    Decidable (Agrees limit keep x b) :=
  inferInstanceAs (Decidable (∀ i ∈ _, _))

/-- From a phase and the messages before it on, a stream agrees with what is kept. -/
abbrev AgreesFrom (limit : Nat) (keep : Nat → Bool) (p : Phase) (ms : List (List UInt8))
    (stream : List UInt8) : Prop :=
  Along (hear limit) (Agrees limit keep) (p, ms) stream

variable {limit : Nat} {p : Phase} {b : UInt8} {bs front more : List UInt8}

theorem agreesFrom_cons :
    AgreesFrom limit keep p ms (b :: bs) ↔
      Agrees limit keep (p, ms) b ∧
        AgreesFrom limit keep (step limit p b).1 (ms ++ messagesOf (step limit p b).2) bs := by
  simp [AgreesFrom, Along, hear]

/-- Bytes that complete no message, and lie one behind the other or have no place. -/
theorem agreesFrom_segment {phaseAt : List UInt8 → Phase} {start : Option Nat}
    (hstep : ∀ xs b ys, front = xs ++ b :: ys →
      (step limit (phaseAt xs) b).1 = phaseAt (xs ++ [b]) ∧
        messagesOf (step limit (phaseAt xs) b).2 = [] ∧
        (phaseAt xs).place limit b = start.map (· + xs.length)) :
    AgreesFrom limit keep (phaseAt []) ms (front ++ more) ↔
      (∀ message ∈ keptOf keep ms, Matches message (start.map (·, front))) ∧
        AgreesFrom limit keep (phaseAt front) ms more := by
  induction front generalizing phaseAt start with
  | nil =>
      refine (and_iff_right fun message _ => ?_).symm
      cases start with
      | none => exact trivial
      | some offset => exact matches_nil message offset
  | cons b front ih =>
      obtain ⟨hnext, hnone, hplace⟩ := hstep [] b front rfl
      have htail := @ih (fun xs => phaseAt (b :: xs)) (start.map (· + 1)) (by
        intro xs c ys hfront
        obtain ⟨h₁, h₂, h₃⟩ := hstep (b :: xs) c ys (by rw [hfront]; rfl)
        refine ⟨h₁, h₂, h₃.trans ?_⟩
        rw [Option.map_map, List.length_cons]
        congr 1
        funext o
        simp only [Function.comp_apply]
        omega)
      rw [List.cons_append, agreesFrom_cons, hnext, hnone, List.append_nil, List.nil_append, htail,
        ← and_assoc]
      refine and_congr_left fun _ => ?_
      rw [Agrees, hplace]
      cases start with
      | none => simp [Matches]
      | some offset =>
          simp only [Option.map_some, Option.mem_some_iff, forall_eq', List.length_nil,
            Nat.add_zero, matches_cons, forall₂_and]

/-! ## The parts of a frame -/

theorem agreesFrom_size_marked {count value : Nat} (hfront : ∀ b ∈ front, Marked b)
    (hlen : count + front.length < 8) :
    AgreesFrom limit keep (.size count value) ms (front ++ more) ↔
      AgreesFrom limit keep (.size (count + front.length) (groupsFrom value front)) ms more := by
  have hsegment := @agreesFrom_segment keep ms limit front more
    (fun xs => .size (count + xs.length) (groupsFrom value xs)) none (by
      rintro xs b ys rfl
      have hb : Marked b := hfront b (by simp)
      have hcount : count + xs.length + 1 < 8 := by
        simp only [List.length_append, List.length_cons] at hlen
        omega
      have hnext := @stepSize_marked b limit (count + xs.length) (groupsFrom value xs) hb hcount
      simp only [place, step, hnext, List.length_append, List.length_singleton, groupsFrom_append]
      exact ⟨rfl, rfl, rfl⟩)
  exact hsegment.trans (and_iff_right fun _ _ => trivial)

theorem messagesOf_announce (limit total : Nat) : messagesOf (announce limit total).2 = [] := by
  rw [announce]
  split <;> rfl

theorem agreesFrom_size_last {count value : Nat} (hb : ¬ Marked b) :
    AgreesFrom limit keep (.size count value) ms (b :: more) ↔
      AgreesFrom limit keep (announce limit (value * 128 + b.toNat % 128)).1 ms more := by
  have hnext := stepSize_last limit count value hb
  rw [agreesFrom_cons, step, hnext, messagesOf_announce, List.append_nil]
  refine and_iff_right ?_
  by_cases hle : value * 128 + b.toNat % 128 ≤ limit
  · simp [Agrees, place, step, hnext, announce, hle]
  · simp [Agrees, place, step, hnext, announce, hle]

/-- The byte at which a size is rejected is the first one that is taken for payload. -/
theorem agreesFrom_size_rejected {value : Nat} (hb : Marked b) :
    AgreesFrom limit keep (.size 7 value) ms (b :: more) ↔
      AgreesFrom limit keep (.failed 0) ms (b :: more) := by
  have hnext := @stepSize_failed b limit value hb
  simp only [agreesFrom_cons, Agrees, place, step, hnext]
  rfl

theorem agreesFrom_skip_part {total seen : Nat} (hlt : seen + front.length < total) :
    AgreesFrom limit keep (.skip total seen) ms (front ++ more) ↔
      AgreesFrom limit keep (.skip total (seen + front.length)) ms more := by
  have hsegment := @agreesFrom_segment keep ms limit front more
    (fun xs => .skip total (seen + xs.length)) none (by
      rintro xs b ys rfl
      have hmore : ¬ seen + xs.length + 1 = total := by
        simp only [List.length_append, List.length_cons] at hlt
        omega
      simp only [place, step, if_neg hmore, List.length_append, List.length_singleton]
      exact ⟨rfl, rfl, rfl⟩)
  exact hsegment.trans (and_iff_right fun _ _ => trivial)

theorem agreesFrom_skip_full {total seen : Nat} (hlt : seen < total)
    (heq : seen + front.length = total) :
    AgreesFrom limit keep (.skip total seen) ms (front ++ more) ↔
      AgreesFrom limit keep (.size 0 0) ms more := by
  obtain ⟨init, last, rfl⟩ := exists_append_last (show 0 < front.length by omega)
  simp only [List.length_append, List.length_singleton] at heq
  have hend : seen + init.length + 1 = total := by omega
  rw [List.append_assoc, agreesFrom_skip_part (by omega), List.singleton_append, agreesFrom_cons]
  simp [Agrees, place, step, hend, messagesOf]

theorem agreesFrom_payload_part {total : Nat} {got : List UInt8}
    (hlt : got.length + front.length < total) :
    AgreesFrom limit keep (.payload total got) ms (front ++ more) ↔
      (∀ message ∈ keptOf keep ms, Matches message (some (got.length, front))) ∧
        AgreesFrom limit keep (.payload total (got ++ front)) ms more := by
  have hsegment := @agreesFrom_segment keep ms limit front more
    (fun xs => .payload total (got ++ xs)) (some got.length) (by
      rintro xs b ys rfl
      simp only [List.length_append, List.length_cons] at hlt
      have hpos : ¬ total = 0 := by omega
      have hmore : ¬ got.length + xs.length + 1 = total := by omega
      simp [place, step, hpos, hmore, messagesOf])
  rw [List.append_nil] at hsegment
  exact hsegment

theorem agreesFrom_payload_full {total : Nat} {got : List UInt8} (hlt : got.length < total)
    (heq : got.length + front.length = total) :
    AgreesFrom limit keep (.payload total got) ms (front ++ more) ↔
      (∀ message ∈ keptOf keep ms, Matches message (some (got.length, front))) ∧
        AgreesFrom limit keep (.size 0 0) (ms ++ [got ++ front]) more := by
  obtain ⟨init, last, rfl⟩ := exists_append_last (show 0 < front.length by omega)
  simp only [List.length_append, List.length_singleton] at heq
  have hpos : ¬ total = 0 := by omega
  have hend : got.length + init.length + 1 = total := by omega
  rw [List.append_assoc, agreesFrom_payload_part (by omega), List.singleton_append, agreesFrom_cons]
  simp [Agrees, place, step, hpos, hend, messagesOf, deliveredReport, matches_append,
    matches_cons, matches_nil, forall₂_and, and_assoc]

/-- An empty message that is kept agrees with everything. -/
theorem agreesFrom_payload_empty :
    AgreesFrom limit keep (.payload 0 []) ms (b :: more) ↔
      AgreesFrom limit keep (.size 0 0) (ms ++ [[]]) (b :: more) := by
  have hplace : (payload 0 []).place limit b = (size 0 0).place limit b := by
    simp only [place, step, if_true]
    cases (stepSize limit 0 0 b).1 <;> rfl
  have hagrees : Agrees limit keep (.payload 0 [], ms) b ↔
      Agrees limit keep (.size 0 0, ms ++ [[]]) b := by
    rw [Agrees, Agrees, hplace]
    refine forall₂_congr fun i _ => ⟨fun h message hmem hi => ?_, fun h message hmem => ?_⟩
    · rcases mem_of_mem_keptOf_append hmem with hold | hnew
      · exact h message hold hi
      · rw [List.mem_singleton.mp hnew] at hi
        exact absurd hi (Nat.not_lt_zero i)
    · exact h message (mem_keptOf_append_left hmem _)
  rw [agreesFrom_cons, agreesFrom_cons, hagrees]
  simp [step, messagesOf, deliveredReport]

theorem agreesFrom_failed {dropped : Nat} :
    AgreesFrom limit keep (.failed dropped) ms (front ++ more) ↔
      (∀ message ∈ keptOf keep ms, Matches message (some (dropped, front))) ∧
        AgreesFrom limit keep (.failed (dropped + front.length)) ms more := by
  refine @agreesFrom_segment keep ms limit front more (fun xs => .failed (dropped + xs.length))
    (some dropped) ?_
  intro xs b ys _
  simp only [place, step, List.length_append, List.length_singleton]
  exact ⟨rfl, rfl, rfl⟩

end Phase

end TarmIo.Net
