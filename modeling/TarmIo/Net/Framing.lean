import TarmIo.Foundation.Groups
import TarmIo.Net.MessageReceive

/-!
# Frames and what a receiver owes for them

A frame is a size field of at most eight bytes and a payload of that size. The
bytewise receiver below says what has to be reported for a stream, with no word
about chunks or buffers. It owes nothing for a malformed size field but one
protocol error; an empty message is owed when the next byte arrives, since only
then does the source's loop look at it.
-/

namespace TarmIo.Net

open Foundation

structure Frame where
  size : List UInt8
  payload : List UInt8
  size_length : size.length ≤ 8
  size_isField : IsField size payload.length

def Frame.bytes (f : Frame) : List UInt8 := f.size ++ f.payload

def deliveredReport (message : List UInt8) : Report :=
  ⟨some message, UInt64.ofNat message.length, {}⟩

def tooLongReport (size : Nat) : Report :=
  ⟨none, UInt64.ofNat size, .ofCode .messageTooLong⟩

def protocolErrorReport : Report := ⟨none, 0, .ofCode .protocolError⟩

/-- What a frame is reported as under a limit on the message size. -/
def Frame.report (limit : Nat) (f : Frame) : Report :=
  if f.payload.length ≤ limit then deliveredReport f.payload
  else tooLongReport f.payload.length

inductive Phase where
  | size (count value : Nat)
  | payload (total : Nat) (got : List UInt8)
  | skip (total seen : Nat)
  | failed (dropped : Nat)

namespace Phase

variable {p : Phase}

def announce (limit total : Nat) : Phase × List Report :=
  if total ≤ limit then (.payload total [], []) else (.skip total 0, [tooLongReport total])

def stepSize (limit count value : Nat) (b : UInt8) : Phase × List Report :=
  match (Progress.reading count value).next 8 b with
  | (_, .reading count value) => (.size count value, [])
  | (_, .complete _ total) => announce limit total
  | (_, .failed) => (.failed 1, [protocolErrorReport])

def step (limit : Nat) : Phase → UInt8 → Phase × List Report
  | .size count value, b => stepSize limit count value b
  | .payload total got, b =>
      if total = 0 then
        ((stepSize limit 0 0 b).1, deliveredReport [] :: (stepSize limit 0 0 b).2)
      else if got.length + 1 = total then (.size 0 0, [deliveredReport (got ++ [b])])
      else (.payload total (got ++ [b]), [])
  | .skip total seen, _ =>
      if seen + 1 = total then (.size 0 0, []) else (.skip total (seen + 1), [])
  | .failed dropped, _ => (.failed (dropped + 1), [])

def run (limit : Nat) : Phase → List UInt8 → Phase × List Report := feed (step limit)

@[simp] theorem run_nil (limit : Nat) (p : Phase) : run limit p [] = (p, []) := rfl

theorem run_cons (limit : Nat) (p : Phase) (b : UInt8) (bs : List UInt8) :
    run limit p (b :: bs) =
      ((run limit (step limit p b).1 bs).1,
        (step limit p b).2 ++ (run limit (step limit p b).1 bs).2) :=
  feed_cons (step limit) p b bs

theorem run_append (limit : Nat) (p : Phase) (xs ys : List UInt8) :
    run limit p (xs ++ ys) =
      ((run limit (run limit p xs).1 ys).1,
        (run limit p xs).2 ++ (run limit (run limit p xs).1 ys).2) :=
  feed_append (step limit) p xs ys

def Live : Phase → Prop
  | .failed _ => False
  | _ => True

/-- The number of bytes taken behind a rejected size, its last byte included. -/
def dropped : Phase → Nat
  | .failed dropped => dropped
  | _ => 0

theorem Live.dropped_eq (h : p.Live) : p.dropped = 0 := by
  cases p with
  | failed dropped => exact h.elim
  | size count value => rfl
  | payload total got => rfl
  | skip total seen => rfl

theorem live_announce (limit total : Nat) : (announce limit total).1.Live := by
  unfold announce
  split <;> trivial

def Idle (p : Phase) : Prop := p = .size 0 0 ∨ p = .payload 0 []

/-! ## Runs inside one part of a frame -/

variable {b : UInt8} {bs : List UInt8}

theorem run_failed (limit dropped : Nat) (bs : List UInt8) :
    run limit (.failed dropped) bs = (.failed (dropped + bs.length), []) := by
  induction bs generalizing dropped with
  | nil => rfl
  | cons b bs ih =>
      rw [run_cons, step, ih]
      simp only [List.length_cons, List.nil_append]
      congr 2
      omega

theorem stepSize_marked (limit : Nat) {count value : Nat} (hb : Marked b) (hc : count + 1 < 8) :
    stepSize limit count value b = (.size (count + 1) (value * 128 + b.toNat % 128), []) := by
  have hne : ¬ count + 1 = 8 := by omega
  simp [stepSize, Progress.next, hb, hne]

theorem stepSize_last (limit count value : Nat) (hb : ¬ Marked b) :
    stepSize limit count value b = announce limit (value * 128 + b.toNat % 128) := by
  simp [stepSize, Progress.next, hb]

theorem stepSize_failed (limit value : Nat) (hb : Marked b) :
    stepSize limit 7 value b = (.failed 1, [protocolErrorReport]) := by
  simp [stepSize, Progress.next, hb]

theorem run_size_marked (limit count value : Nat) (bs : List UInt8)
    (hbs : ∀ b ∈ bs, Marked b) (hlen : count + bs.length < 8) :
    run limit (.size count value) bs =
      (.size (count + bs.length) (groupsFrom value bs), []) := by
  induction bs generalizing count value with
  | nil => rfl
  | cons b bs ih =>
      simp only [List.length_cons] at hlen
      have hb : Marked b := hbs b List.mem_cons_self
      rw [run_cons, step, stepSize_marked limit hb (by omega),
        ih _ _ (fun x hx => hbs x (List.mem_cons_of_mem b hx)) (by omega)]
      simp only [List.length_cons, groupsFrom_cons, List.nil_append]
      congr 2
      omega

theorem run_size_complete (limit count value : Nat) (init : List UInt8) (last : UInt8)
    (hinit : ∀ b ∈ init, Marked b) (hlast : ¬ Marked last) (hlen : count + init.length < 8) :
    run limit (.size count value) (init ++ [last]) =
      announce limit (groupsFrom value (init ++ [last])) := by
  rw [run_append, run_size_marked limit count value init hinit hlen, run_cons]
  simp [step, stepSize_last limit _ _ hlast, groupsFrom_append]

theorem run_size_failed (limit count value : Nat) (init : List UInt8) (b : UInt8)
    (rest : List UInt8) (hinit : ∀ b ∈ init, Marked b) (hb : Marked b)
    (hlen : count + init.length = 7) :
    run limit (.size count value) (init ++ b :: rest) =
      (.failed (rest.length + 1), [protocolErrorReport]) := by
  rw [run_append, run_size_marked limit count value init hinit (by omega), run_cons, hlen]
  simp only [step, stepSize_failed limit _ hb, run_failed]
  simp [Nat.add_comm]

theorem run_payload_part (limit total : Nat) (got bs : List UInt8)
    (hlt : got.length + bs.length < total) :
    run limit (.payload total got) bs = (.payload total (got ++ bs), []) := by
  induction bs generalizing got with
  | nil => simp
  | cons b bs ih =>
      simp only [List.length_cons] at hlt
      have hpos : ¬ total = 0 := by omega
      have hmore : ¬ got.length + 1 = total := by omega
      rw [run_cons]
      simp only [step, hpos, hmore, if_false]
      rw [ih (got ++ [b]) (by simp only [List.length_append, List.length_singleton]; omega)]
      simp

theorem exists_append_last {bs : List UInt8} (h : 0 < bs.length) :
    ∃ init last, bs = init ++ [last] :=
  ⟨bs.dropLast, bs.getLast (List.ne_nil_of_length_pos h), (List.dropLast_append_getLast _).symm⟩

theorem run_payload_full (limit total : Nat) (got bs : List UInt8)
    (hlt : got.length < total) (heq : got.length + bs.length = total) :
    run limit (.payload total got) bs = (.size 0 0, [deliveredReport (got ++ bs)]) := by
  obtain ⟨init, last, rfl⟩ := exists_append_last (show 0 < bs.length by omega)
  simp only [List.length_append, List.length_singleton] at heq
  have hpos : ¬ total = 0 := by omega
  have hend : (got ++ init).length + 1 = total := by
    simp only [List.length_append]
    omega
  rw [run_append, run_payload_part limit total got init (by omega), run_cons]
  simp only [step, hpos, hend, if_false, if_true, run_nil]
  simp

theorem run_payload_empty (limit : Nat) (hne : bs ≠ []) :
    run limit (.payload 0 []) bs =
      ((run limit (.size 0 0) bs).1, deliveredReport [] :: (run limit (.size 0 0) bs).2) := by
  cases bs with
  | nil => exact absurd rfl hne
  | cons b bs =>
      rw [run_cons, run_cons]
      rfl

theorem run_skip_part (limit total seen : Nat) (bs : List UInt8)
    (hlt : seen + bs.length < total) :
    run limit (.skip total seen) bs = (.skip total (seen + bs.length), []) := by
  induction bs generalizing seen with
  | nil => rfl
  | cons b bs ih =>
      simp only [List.length_cons] at hlt
      have hmore : ¬ seen + 1 = total := by omega
      rw [run_cons]
      simp only [step, hmore, if_false]
      rw [ih (seen + 1) (by omega)]
      simp only [List.length_cons, List.nil_append]
      congr 2
      omega

theorem run_skip_full (limit total seen : Nat) (bs : List UInt8)
    (hlt : seen < total) (heq : seen + bs.length = total) :
    run limit (.skip total seen) bs = (.size 0 0, []) := by
  obtain ⟨init, last, rfl⟩ := exists_append_last (show 0 < bs.length by omega)
  simp only [List.length_append, List.length_singleton] at heq
  have hend : seen + init.length + 1 = total := by omega
  rw [run_append, run_skip_part limit total seen init (by omega), run_cons]
  simp [step, hend]

/-! ## Whole frames -/

theorem run_size_field (limit : Nat) {n : Nat} (hf : IsField bs n) (hlen : bs.length ≤ 8) :
    run limit (.size 0 0) bs = announce limit n := by
  obtain ⟨init, last, rfl, hinit, hlast⟩ := hf.shape
  simp only [List.length_append, List.length_singleton] at hlen
  rw [run_size_complete limit 0 0 init last hinit hlast (by omega), hf.value]

/-- A frame with a payload is reported at its last byte. -/
theorem run_frame (limit : Nat) (f : Frame) (hne : f.payload ≠ []) :
    run limit (.size 0 0) f.bytes = (.size 0 0, [f.report limit]) := by
  have hpos : 0 < f.payload.length := List.length_pos_iff.mpr hne
  rw [Frame.bytes, run_append, run_size_field limit f.size_isField f.size_length]
  by_cases hl : f.payload.length ≤ limit
  · simp only [announce, hl, if_true, Frame.report]
    rw [run_payload_full limit _ [] f.payload (by simpa using hpos) (by simp)]
    simp
  · simp only [announce, hl, if_false, Frame.report]
    rw [run_skip_full limit _ 0 f.payload hpos (by simp)]
    simp

theorem run_frames (limit : Nat) (fs : List Frame) (hne : ∀ f ∈ fs, f.payload ≠ []) :
    run limit (.size 0 0) (fs.flatMap Frame.bytes) = (.size 0 0, fs.map (Frame.report limit)) := by
  induction fs with
  | nil => rfl
  | cons f fs ih =>
      rw [List.flatMap_cons, run_append, run_frame limit f (hne f List.mem_cons_self),
        ih fun g hg => hne g (List.mem_cons_of_mem f hg)]
      rfl

/-- Any frame, an empty one included, leads from between frames to between frames. -/
theorem run_frame_idle (limit : Nat) (hp : p.Idle) (f : Frame) : (run limit p f.bytes).1.Idle := by
  have hbytes : f.bytes ≠ [] := by
    simp [Frame.bytes, f.size_isField.ne_nil]
  have hstart : (run limit (.size 0 0) f.bytes).1.Idle := by
    by_cases hne : f.payload = []
    · rw [Frame.bytes, run_append, run_size_field limit f.size_isField f.size_length, hne]
      simp [announce, Idle]
    · rw [run_frame limit f hne]
      exact .inl rfl
  rcases hp with rfl | rfl
  · exact hstart
  · rw [run_payload_empty limit hbytes]
    exact hstart

theorem run_frames_idle (limit : Nat) (hp : p.Idle) (fs : List Frame) :
    (run limit p (fs.flatMap Frame.bytes)).1.Idle := by
  induction fs generalizing p with
  | nil => exact hp
  | cons f fs ih =>
      rw [List.flatMap_cons, run_append]
      exact ih (run_frame_idle limit hp f)

end Phase

/-! ## Malformed streams -/

variable {stream tail : List UInt8}

/-- After some frames the stream goes on with eight marked bytes; `tail` starts
with the eighth, at which the size field is rejected. -/
def RejectedTail (stream tail : List UInt8) : Prop :=
  ∃ (frames : List Frame) (marked : List UInt8) (b : UInt8) (rest : List UInt8),
    stream = frames.flatMap Frame.bytes ++ (marked ++ b :: rest) ∧ marked.length = 7 ∧
      (∀ x ∈ marked, Marked x) ∧ Marked b ∧ tail = b :: rest

theorem RejectedTail.length_pos (h : RejectedTail stream tail) : 0 < tail.length := by
  obtain ⟨_, _, _, _, _, _, _, _, rfl⟩ := h
  simp

theorem RejectedTail.append (h : RejectedTail stream tail) (bs : List UInt8) :
    RejectedTail (stream ++ bs) (tail ++ bs) := by
  obtain ⟨frames, marked, b, rest, rfl, hlen, hmarked, hb, rfl⟩ := h
  exact ⟨frames, marked, b, rest ++ bs, by simp, hlen, hmarked, hb, rfl⟩

namespace Phase

variable {p : Phase}

/-- The receiver rejects a malformed stream at that byte and drops what follows. -/
theorem run_rejected (limit : Nat) {stream tail : List UInt8} (h : RejectedTail stream tail) :
    (run limit (.size 0 0) stream).1 = .failed tail.length := by
  obtain ⟨frames, marked, b, rest, rfl, hlen, hmarked, hb, rfl⟩ := h
  have hfail := run_size_failed limit 0 0 marked b rest hmarked hb (by omega)
  rw [run_append]
  rcases run_frames_idle limit (.inl rfl : (size 0 0).Idle) frames with hp | hp
  · rw [hp, hfail, List.length_cons]
  · rw [hp, run_payload_empty limit (by simp), hfail, List.length_cons]

/-- What has been read when a phase is reached. -/
def Parsed (stream : List UInt8) : Phase → Prop
  | .size count value =>
      ∃ (frames : List Frame) (marked : List UInt8),
        stream = frames.flatMap Frame.bytes ++ marked ∧ (∀ b ∈ marked, Marked b) ∧
          marked.length = count ∧ count < 8 ∧ groupsFrom 0 marked = value
  | .payload total got =>
      ∃ (frames : List Frame) (size : List UInt8),
        stream = frames.flatMap Frame.bytes ++ (size ++ got) ∧ IsField size total ∧
          size.length ≤ 8 ∧ (got.length < total ∨ total = 0 ∧ got = [])
  | .skip total seen =>
      ∃ (frames : List Frame) (size got : List UInt8),
        stream = frames.flatMap Frame.bytes ++ (size ++ got) ∧ IsField size total ∧
          size.length ≤ 8 ∧ got.length = seen ∧ seen < total
  | .failed dropped => ∃ tail, RejectedTail stream tail ∧ tail.length = dropped

theorem parsed_start : Parsed [] (.size 0 0) :=
  ⟨[], [], rfl, by simp, rfl, by decide, rfl⟩

private theorem parsed_of_frame {stream : List UInt8} (frames : List Frame) (f : Frame)
    (h : stream = frames.flatMap Frame.bytes ++ f.bytes) : Parsed stream (.size 0 0) :=
  ⟨frames ++ [f], [], by simp [h], by simp, rfl, by decide, rfl⟩

private theorem parsed_stepSize (limit : Nat) {stream : List UInt8} {count value : Nat}
    (h : Parsed stream (.size count value)) (b : UInt8) :
    Parsed (stream ++ [b]) (stepSize limit count value b).1 := by
  obtain ⟨frames, marked, rfl, hmarked, rfl, hlt, rfl⟩ := h
  have hvalue : groupsFrom 0 (marked ++ [b]) = groupsFrom 0 marked * 128 + b.toNat % 128 := by
    rw [groupsFrom_append]
    rfl
  by_cases hb : Marked b
  · by_cases hc : marked.length + 1 < 8
    · rw [stepSize_marked limit hb hc]
      refine ⟨frames, marked ++ [b], by simp, ?_, by simp, hc, hvalue⟩
      intro x hx
      rcases List.mem_append.mp hx with hx | hx
      · exact hmarked x hx
      · rwa [List.mem_singleton.mp hx]
    · have hseven : marked.length = 7 := by omega
      rw [hseven, stepSize_failed limit _ hb]
      exact ⟨[b], ⟨frames, marked, b, [], by simp, hseven, hmarked, hb, rfl⟩, rfl⟩
  · have hf : IsField (marked ++ [b]) (groupsFrom 0 marked * 128 + b.toNat % 128) :=
      ⟨⟨marked, b, rfl, hmarked, hb⟩, hvalue⟩
    have hlen : (marked ++ [b]).length ≤ 8 := by
      simp only [List.length_append, List.length_singleton]
      omega
    rw [stepSize_last limit _ _ hb, announce]
    split
    · refine ⟨frames, marked ++ [b], by simp, hf, hlen, ?_⟩
      by_cases h0 : groupsFrom 0 marked * 128 + b.toNat % 128 = 0
      · exact .inr ⟨h0, rfl⟩
      · exact .inl (Nat.pos_of_ne_zero h0)
    · rename_i hgt
      exact ⟨frames, marked ++ [b], [], by simp, hf, hlen, rfl, by omega⟩

theorem parsed_step (limit : Nat) (h : Parsed stream p) (b : UInt8) :
    Parsed (stream ++ [b]) (step limit p b).1 := by
  cases p with
  | size count value => exact parsed_stepSize limit h b
  | payload total got =>
      obtain ⟨frames, size, rfl, hf, hlen, hgot⟩ := h
      by_cases h0 : total = 0
      · -- The empty message was complete already: the byte starts the next size.
        subst h0
        have hnil : got = [] := by
          rcases hgot with hlt | ⟨_, hnil⟩
          · exact absurd hlt (Nat.not_lt_zero _)
          · exact hnil
        subst hnil
        have hidle : Parsed (frames.flatMap Frame.bytes ++ (size ++ [])) (.size 0 0) :=
          parsed_of_frame frames ⟨size, [], hlen, hf⟩ rfl
        simpa [step] using parsed_stepSize limit hidle b
      · have hlt : got.length < total := by
          rcases hgot with hlt | ⟨hzero, _⟩
          · exact hlt
          · exact absurd hzero h0
        by_cases hend : got.length + 1 = total
        · have hlast : (got ++ [b]).length = total := by simpa using hend
          simp only [step, h0, hend, if_false, if_true]
          refine parsed_of_frame frames ⟨size, got ++ [b], hlen, by rwa [hlast]⟩ ?_
          simp [Frame.bytes]
        · simp only [step, h0, hend, if_false]
          refine ⟨frames, size, by simp, hf, hlen, .inl ?_⟩
          simp only [List.length_append, List.length_singleton]
          omega
  | skip total seen =>
      obtain ⟨frames, size, got, rfl, hf, hlen, rfl, hlt⟩ := h
      by_cases hend : got.length + 1 = total
      · have hlast : (got ++ [b]).length = total := by simpa using hend
        simp only [step, hend, if_true]
        refine parsed_of_frame frames ⟨size, got ++ [b], hlen, by rwa [hlast]⟩ ?_
        simp [Frame.bytes]
      · simp only [step, hend, if_false]
        exact ⟨frames, size, got ++ [b], by simp, hf, hlen, by simp, by omega⟩
  | failed dropped =>
      obtain ⟨tail, htail, rfl⟩ := h
      exact ⟨tail ++ [b], htail.append [b], by simp⟩

theorem parsed_run (limit : Nat) (h : Parsed stream p) (bs : List UInt8) :
    Parsed (stream ++ bs) (run limit p bs).1 := by
  induction bs generalizing stream p with
  | nil => simpa using h
  | cons b bs ih =>
      rw [run_cons]
      simpa using ih (parsed_step limit h b)

/-- Only malformed streams are rejected, and at the byte their tail starts with. -/
theorem rejected_of_run (limit : Nat) {dropped : Nat}
    (h : (run limit (.size 0 0) stream).1 = .failed dropped) :
    ∃ tail, RejectedTail stream tail ∧ tail.length = dropped := by
  have hparsed := parsed_run limit parsed_start stream
  rw [h] at hparsed
  simpa [Parsed] using hparsed

theorem dropped_run_le (limit : Nat) {n : Nat}
    (h : ∀ tail, RejectedTail stream tail → tail.length ≤ n) :
    (run limit (.size 0 0) stream).1.dropped ≤ n := by
  cases hp : (run limit (.size 0 0) stream).1 with
  | failed dropped =>
      obtain ⟨tail, htail, rfl⟩ := rejected_of_run limit hp
      exact h tail htail
  | size count value => exact Nat.zero_le _
  | payload total got => exact Nat.zero_le _
  | skip total seen => exact Nat.zero_le _

end Phase

end TarmIo.Net
