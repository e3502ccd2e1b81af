import TarmIo.Core.SizeDecoding
import TarmIo.Net.Framing

/-!
# The two parts of a round of `on_data_receive`

`Tracks s p` ties the receive state to a phase of the bytewise receiver. The size
part and the payload part of a round are compared with the receiver's steps on the
bytes they take. A failed decoder is followed too: it leaves the payload part to
copy on.
-/

namespace TarmIo.Net.MessageClient

open Foundation TarmIo.Core VariableLengthSize

variable {limit : Nat} {effects : List ReceiveEffect}

/-- The receive state in each phase. While a message is taken, the buffer starts
with the bytes taken so far. -/
def Tracks (s : MessageClient) : Phase → Prop
  | .size count value =>
      Holds s.currentMessageSize (.reading count value) ∧ s.currentMessageOffset.toNat = 0
  | .payload total got =>
      (∃ count, Holds s.currentMessageSize (.complete count total)) ∧
        total ≤ s.maxMessageSize.toNat ∧ s.currentMessageOffset.toNat = got.length ∧
        (got.length < total ∨ total = 0 ∧ got = []) ∧ content s.buffer got.length = got
  | .skip total seen =>
      (∃ count, Holds s.currentMessageSize (.complete count total)) ∧
        s.maxMessageSize.toNat < total ∧ s.currentMessageOffset.toNat = seen ∧ seen < total
  | .failed dropped =>
      Holds s.currentMessageSize .failed ∧ s.currentMessageOffset.toNat = dropped ∧
        dropped < 2 ^ 64 - 1

theorem tracks_fresh (maxMessageSize : UInt64) (memory : Nat → UInt8) :
    Tracks (fresh maxMessageSize memory) (.size 0 0) :=
  ⟨holds_fresh, rfl⟩

def CopiesWithin (limit : Nat) (effects : List ReceiveEffect) : Prop :=
  ∀ o n, .memcpy o n ∈ effects → o + n ≤ limit

theorem CopiesWithin.mono {a b : Nat} (h : CopiesWithin a effects) (hab : a ≤ b) :
    CopiesWithin b effects :=
  fun o n hmem => Nat.le_trans (h o n hmem) hab

theorem CopiesWithin.append {xs ys : List ReceiveEffect} (hx : CopiesWithin limit xs)
    (hy : CopiesWithin limit ys) : CopiesWithin limit (xs ++ ys) := by
  intro o n hmem
  rcases List.mem_append.mp hmem with h | h
  · exact hx o n h
  · exact hy o n h

/-! ## The buffer -/

theorem content_memcpy (memory : Nat → UInt8) (got src : List UInt8)
    (h : content memory got.length = got) :
    content (memcpy memory got.length src) (got.length + src.length) = got ++ src := by
  rw [content, List.range_add, List.map_append, List.map_map]
  congr 1
  · have hkeep : (List.range got.length).map (memcpy memory got.length src) =
        (List.range got.length).map memory := by
      apply List.map_congr_left
      intro i hi
      have hlt := List.mem_range.mp hi
      rw [memcpy, if_neg (by omega)]
    rw [hkeep]
    exact h
  · apply List.ext_getElem
    · simp
    · intro i hi hsrc
      simp only [List.length_map, List.length_range] at hi
      simp [memcpy, hi]

/-! ## Arithmetic of one copy -/

variable {s : MessageClient} {n : Nat} {rest : List UInt8} {count total : Nat}

theorem sizeToCopy_eq (h : s.currentMessageOffset.toNat ≤ s.currentMessageSize.value.toNat)
    (bytesLeft : Nat) :
    s.sizeToCopy bytesLeft =
      min (s.currentMessageSize.value.toNat - s.currentMessageOffset.toNat) bytesLeft := by
  have hroom := UInt64.toNat_sub_of_le _ _ (UInt64.le_iff_toNat_le.mpr h)
  rw [sizeToCopy, hroom]
  split <;> omega

theorem offset_add (h : s.currentMessageOffset.toNat + n < 2 ^ 64) :
    (s.currentMessageOffset + UInt64.ofNat n).toNat = s.currentMessageOffset.toNat + n := by
  rw [UInt64.toNat_add, UInt64.toNat_ofNat']
  omega

/-- The payload part with its word arithmetic done. -/
theorem takePayload_eq (callback : Bool) (rest : List UInt8)
    (h : s.currentMessageOffset.toNat ≤ s.currentMessageSize.value.toNat)
    (hn : n = min (s.currentMessageSize.value.toNat - s.currentMessageOffset.toNat) rest.length) :
    takePayload callback s rest =
      let copies := if s.currentMessageTooLarge then []
        else [.memcpy s.currentMessageOffset.toNat n]
      let memory := if s.currentMessageTooLarge then s.buffer
        else memcpy s.buffer s.currentMessageOffset.toNat (rest.take n)
      if s.currentMessageOffset.toNat + n = s.currentMessageSize.value.toNat then
        ({ s with
            buffer := memory
            currentMessageSize := s.currentMessageSize.reset
            currentMessageOffset := 0 },
          copies ++
            (if callback && !s.currentMessageTooLarge then
              [.callback ⟨some (content memory s.currentMessageSize.value.toNat),
                s.currentMessageSize.value, {}⟩]
            else []),
          rest.drop n)
      else
        ({ s with
            buffer := memory
            currentMessageOffset := s.currentMessageOffset + UInt64.ofNat n },
          copies, rest.drop n) := by
  have hlt := s.currentMessageSize.value.toNat_lt
  have hsum := @offset_add s n (by omega)
  have hend : s.currentMessageOffset + UInt64.ofNat n = s.currentMessageSize.value ↔
      s.currentMessageOffset.toNat + n = s.currentMessageSize.value.toNat := by
    rw [← UInt64.toNat_inj, hsum]
  simp only [takePayload, sizeToCopy_eq h, ← hn, hend]

theorem takePayload_part (callback : Bool)
    (h : s.currentMessageOffset.toNat + rest.length < s.currentMessageSize.value.toNat) :
    takePayload callback s rest =
      ({ s with
          buffer := if s.currentMessageTooLarge then s.buffer
            else memcpy s.buffer s.currentMessageOffset.toNat rest
          currentMessageOffset := s.currentMessageOffset + UInt64.ofNat rest.length },
        if s.currentMessageTooLarge then []
          else [.memcpy s.currentMessageOffset.toNat rest.length], []) := by
  have hpart := @takePayload_eq s rest.length callback rest (by omega) (by omega)
  have hopen : ¬ s.currentMessageOffset.toNat + rest.length =
      s.currentMessageSize.value.toNat := by
    omega
  simpa only [if_neg hopen, List.take_length, List.drop_length] using hpart

theorem takePayload_full (callback : Bool) (hn : n ≤ rest.length)
    (h : s.currentMessageOffset.toNat + n = s.currentMessageSize.value.toNat) :
    takePayload callback s rest =
      let memory := if s.currentMessageTooLarge then s.buffer
        else memcpy s.buffer s.currentMessageOffset.toNat (rest.take n)
      ({ s with
          buffer := memory
          currentMessageSize := s.currentMessageSize.reset
          currentMessageOffset := 0 },
        (if s.currentMessageTooLarge then [] else [.memcpy s.currentMessageOffset.toNat n]) ++
          (if callback && !s.currentMessageTooLarge then
            [.callback ⟨some (content memory s.currentMessageSize.value.toNat),
              s.currentMessageSize.value, {}⟩]
          else []),
        rest.drop n) := by
  have hpart := @takePayload_eq s n callback rest (by omega) (by omega)
  simpa only [if_pos h] using hpart

theorem currentMessageTooLarge_complete (h : Holds s.currentMessageSize (.complete count total)) :
    s.currentMessageTooLarge = decide (s.maxMessageSize.toNat < total) := by
  have hvalue := value_complete h
  simp only [currentMessageTooLarge, isComplete_complete h, Bool.true_and]
  congr 1
  rw [gt_iff_lt, UInt64.lt_iff_toNat_lt, hvalue]

theorem currentMessageTooLarge_open (h : s.currentMessageSize.isComplete = false) :
    s.currentMessageTooLarge = false := by
  simp [currentMessageTooLarge, h]

/-! ## One part of a round -/

variable {got : List UInt8}

/-- What a part of a round does to the receiver in phase `p` with `rest` before it:
it makes some of the receiver's steps, reports what they owe when a callback is
set, and copies inside the allocation only. -/
structure Advance (callback : Bool) (limit : Nat) (p : Phase) (rest : List UInt8)
    (r : MessageClient × List ReceiveEffect × List UInt8) (p' : Phase) (owed : List Report) :
    Prop where
  tracks : Tracks r.1 p'
  live : p'.Live
  limit_eq : r.1.maxMessageSize.toNat = limit
  reports_eq : reports r.2.1 = if callback then owed else []
  run_eq : Phase.run limit p rest =
    ((Phase.run limit p' r.2.2).1, owed ++ (Phase.run limit p' r.2.2).2)
  copies : CopiesWithin limit r.2.1

theorem Advance.of_split {callback : Bool} {p p' : Phase} {rest front : List UInt8}
    {r : MessageClient × List ReceiveEffect × List UInt8} {owed : List Report}
    (hsplit : rest = front ++ r.2.2) (hrun : Phase.run limit p front = (p', owed))
    (tracks : Tracks r.1 p') (live : p'.Live) (limit_eq : r.1.maxMessageSize.toNat = limit)
    (reports_eq : reports r.2.1 = if callback then owed else [])
    (copies : CopiesWithin limit r.2.1) : Advance callback limit p rest r p' owed :=
  ⟨tracks, live, limit_eq, reports_eq, by rw [hsplit, Phase.run_append, hrun], copies⟩

theorem Advance.trans {callback : Bool} {p q u : Phase}
    {r₁ r₂ : MessageClient × List ReceiveEffect × List UInt8} {owed₁ owed₂ : List Report}
    (h₁ : Advance callback limit p rest r₁ q owed₁)
    (h₂ : Advance callback limit q r₁.2.2 r₂ u owed₂) :
    Advance callback limit p rest (r₂.1, r₁.2.1 ++ r₂.2.1, r₂.2.2) u (owed₁ ++ owed₂) where
  tracks := h₂.tracks
  live := h₂.live
  limit_eq := h₂.limit_eq
  reports_eq := by
    rw [reports_append, h₁.reports_eq, h₂.reports_eq]
    cases callback <;> simp
  run_eq := by rw [h₁.run_eq, h₂.run_eq, List.append_assoc]
  copies := h₁.copies.append h₂.copies

theorem copiesWithin_callbacks (h : ∀ e ∈ effects, ∃ r, e = .callback r) :
    CopiesWithin limit effects := by
  intro o n hmem
  obtain ⟨r, hr⟩ := h _ hmem
  cases hr

theorem copiesWithin_cons {limit o n : Nat} (h : o + n ≤ limit)
    (hrest : ∀ e ∈ effects, ∃ r, e = .callback r) :
    CopiesWithin limit (.memcpy o n :: effects) := by
  intro o' n' hmem
  rcases List.mem_cons.mp hmem with heq | hmem
  · cases heq
    exact h
  · exact copiesWithin_callbacks hrest o' n' hmem

theorem callback_of_mem_ite {c : Prop} [Decidable c] {report : Report} :
    ∀ e ∈ (if c then [ReceiveEffect.callback report] else []), ∃ r, e = .callback r := by
  intro e he
  split at he
  · exact ⟨report, List.mem_singleton.mp he⟩
  · cases he

structure Rejects (callback : Bool) (limit : Nat) (p : Phase) (rest : List UInt8)
    (r : MessageClient × List ReceiveEffect × List UInt8) : Prop where
  ne_nil : r.2.2 ≠ []
  length_le : r.2.2.length ≤ rest.length
  tracks : Tracks r.1 (.failed 0)
  limit_eq : r.1.maxMessageSize.toNat = limit
  effects_eq : r.2.1 = if callback then [.callback protocolErrorReport] else []
  run_eq : Phase.run limit p rest = (.failed r.2.2.length, [protocolErrorReport])

theorem tracks_announce (h : Holds s.currentMessageSize (.complete count total))
    (hoffset : s.currentMessageOffset.toNat = 0) :
    Tracks s (Phase.announce s.maxMessageSize.toNat total).1 := by
  unfold Phase.announce
  split
  · rename_i hle
    refine ⟨⟨count, h⟩, hle, hoffset, ?_, rfl⟩
    by_cases h0 : total = 0
    · exact .inr ⟨h0, rfl⟩
    · exact .inl (Nat.pos_of_ne_zero h0)
  · rename_i hgt
    exact ⟨⟨count, h⟩, by omega, hoffset, by omega⟩

/-- Only a size above the limit is reported when it is known. -/
theorem reports_announce (callback : Bool) (limit total : Nat) :
    reports (if limit < total ∧ callback = true then [.callback (tooLongReport total)] else []) =
      if callback then (Phase.announce limit total).2 else [] := by
  by_cases hgt : limit < total
  · have hnle : ¬ total ≤ limit := by omega
    cases callback <;> simp [Phase.announce, hgt, hnle]
  · have hle : total ≤ limit := by omega
    cases callback <;> simp [Phase.announce, hgt, hle]

/-! The size part by what the decoder makes of the bytes. -/

theorem readSize_open (callback : Bool) {count value : Nat}
    (h : Holds (s.currentMessageSize.addBytesLoop rest).2 (.reading count value)) :
    readSize callback s rest =
      ({ s with currentMessageSize := (s.currentMessageSize.addBytesLoop rest).2 }, [],
        rest.drop (s.currentMessageSize.addBytesLoop rest).1) := by
  simp [readSize, addBytes, currentMessageTooLarge, isComplete_reading h, fail_reading h]

theorem readSize_complete (callback : Bool)
    (h : Holds (s.currentMessageSize.addBytesLoop rest).2 (.complete count total)) :
    readSize callback s rest =
      ({ s with currentMessageSize := (s.currentMessageSize.addBytesLoop rest).2 },
        if s.maxMessageSize.toNat < total ∧ callback = true then
          [.callback (tooLongReport total)] else [],
        rest.drop (s.currentMessageSize.addBytesLoop rest).1) := by
  have hlarge := @currentMessageTooLarge_complete
    { s with currentMessageSize := (s.currentMessageSize.addBytesLoop rest).2 } _ _ h
  have hvalue : (s.currentMessageSize.addBytesLoop rest).2.value = UInt64.ofNat total := by
    rw [← value_complete h, UInt64.ofNat_toNat]
  simp only [readSize, addBytes, hlarge, fail_complete h, hvalue, Bool.false_and,
    Bool.false_eq_true, if_false, List.append_nil, Bool.and_eq_true, decide_eq_true_eq]
  rfl

theorem readSize_failed (callback : Bool)
    (h : Holds (s.currentMessageSize.addBytesLoop rest).2 .failed) :
    readSize callback s rest =
      ({ s with currentMessageSize := (s.currentMessageSize.addBytesLoop rest).2 },
        if callback then [.callback protocolErrorReport] else [],
        rest.drop (s.currentMessageSize.addBytesLoop rest).1) := by
  simp only [readSize, addBytes, currentMessageTooLarge, isComplete_failed h, fail_failed h,
    Bool.false_and, Bool.false_eq_true, if_false, Bool.true_and, List.nil_append]
  rfl

/-- The size part reads everything, or reads the field to its end, or rejects it. -/
theorem readSize_reading (callback : Bool) {count value : Nat} (h : Tracks s (.size count value))
    (rest : List UInt8) :
    (∃ p' owed, Advance callback s.maxMessageSize.toNat (.size count value) rest
        (readSize callback s rest) p' owed ∧
      ((readSize callback s rest).2.2 = [] ∨
        (readSize callback s rest).1.currentMessageSize.isComplete = true ∧
          (readSize callback s rest).2.2.length < rest.length)) ∨
    Rejects callback s.maxMessageSize.toNat (.size count value) rest
      (readSize callback s rest) := by
  obtain ⟨hsize, hoffset⟩ := h
  obtain ⟨htaken, hholds⟩ := addBytesLoop_refines hsize rest
  rcases Progress.scan_reading hsize.1 rest with
    ⟨c, v, hscan, rfl, rfl, hlt, hall⟩ |
    ⟨init, last, tail, rfl, hinit, hlast, hlt, hscan⟩ |
    ⟨init, b, tail, rfl, hinit, hb, hlen, hscan⟩
  · left
    rw [hscan] at htaken hholds
    have hrest : rest.drop (s.currentMessageSize.addBytesLoop rest).1 = [] := by simp [htaken]
    have hrun := Phase.run_size_marked s.maxMessageSize.toNat count value rest hall hlt
    rw [readSize_open callback hholds, hrest]
    exact ⟨_, _, .of_split (List.append_nil rest).symm hrun ⟨hholds, hoffset⟩ trivial rfl
      (by simp) (copiesWithin_callbacks (by simp)), .inl rfl⟩
  · left
    rw [hscan] at htaken hholds
    have hrest : (init ++ last :: tail).drop
        (s.currentMessageSize.addBytesLoop (init ++ last :: tail)).1 = tail := by
      simp [htaken]
    have hrun := Phase.run_size_complete s.maxMessageSize.toNat count value init last hinit hlast
      hlt
    rw [readSize_complete callback hholds, hrest]
    refine ⟨(Phase.announce _ _).1, (Phase.announce _ _).2, .of_split (by simp) hrun
      (tracks_announce hholds hoffset) (Phase.live_announce _ _) rfl ?_ ?_,
      .inr ⟨isComplete_complete hholds, ?_⟩⟩
    · exact reports_announce callback _ _
    · exact copiesWithin_callbacks callback_of_mem_ite
    · simp only [List.length_append, List.length_cons]
      omega
  · right
    rw [hscan] at htaken hholds
    have hrest : (init ++ b :: tail).drop
        (s.currentMessageSize.addBytesLoop (init ++ b :: tail)).1 = b :: tail := by
      simp [htaken]
    rw [readSize_failed callback hholds, hrest]
    refine ⟨by simp, by simp, ⟨hholds, hoffset, by decide⟩, rfl, rfl, ?_⟩
    rw [Phase.run_size_failed _ count value init b tail hinit hb (by omega)]
    rfl

/-- A bound on the rounds that are left: a byte costs at most two of them. -/
def pendingRounds (s : MessageClient) (rest : List UInt8) : Nat :=
  2 * rest.length + if s.currentMessageSize.isComplete then 1 else 0

theorem pendingRounds_reset (s : MessageClient) (rest : List UInt8) (memory : Nat → UInt8)
    (offset : UInt64) :
    pendingRounds ⟨s.maxMessageSize, offset, s.currentMessageSize.reset, memory⟩ rest =
      2 * rest.length := by
  simp [pendingRounds, isComplete_reading (holds_reset s.currentMessageSize)]

section

variable (h : s.currentMessageSize.isComplete = true)
include h

theorem pendingRounds_complete : pendingRounds s rest = 2 * rest.length + 1 := by
  simp [pendingRounds, h]

/-- A message that is completed costs its pending round. -/
theorem pendingRounds_full (memory : Nat → UInt8) :
    pendingRounds ⟨s.maxMessageSize, 0, s.currentMessageSize.reset, memory⟩ (rest.drop n) <
      pendingRounds s rest := by
  rw [pendingRounds_complete h, pendingRounds_reset, List.length_drop]
  omega

theorem pendingRounds_part (hne : rest ≠ []) (memory : Nat → UInt8) (offset : UInt64) :
    pendingRounds ⟨s.maxMessageSize, offset, s.currentMessageSize, memory⟩ [] <
      pendingRounds s rest := by
  have hlen : 0 < rest.length := List.length_pos_iff.mpr hne
  simp only [pendingRounds, h, if_true, List.length_nil]
  omega

end

/-- What a part of the payload leaves in the buffer. -/
theorem content_part {got front : List UInt8} (hcontent : content s.buffer got.length = got) :
    content (memcpy s.buffer got.length front) (got ++ front).length = got ++ front := by
  rw [List.length_append]
  exact content_memcpy s.buffer got front hcontent

section

variable (callback : Bool)
include callback

theorem takePayload_payload_full {total n : Nat} (h : Tracks s (.payload total got))
    (hne : rest ≠ []) (hn : n ≤ rest.length) (hend : got.length + n = total) :
    Advance callback s.maxMessageSize.toNat (.payload total got) rest
      (takePayload callback s rest) (.size 0 0) [deliveredReport (got ++ rest.take n)] := by
  obtain ⟨⟨count, hsize⟩, hle, hoffset, hgot, hcontent⟩ := h
  have hvalue := value_complete hsize
  have hword : s.currentMessageSize.value = UInt64.ofNat total := by
    rw [← hvalue, UInt64.ofNat_toNat]
  have hfits : s.currentMessageTooLarge = false := by
    rw [currentMessageTooLarge_complete hsize, decide_eq_false_iff_not]
    omega
  have htake : (rest.take n).length = n := List.length_take_of_le hn
  have hlast : (got ++ rest.take n).length = total := by
    rw [List.length_append, htake, hend]
  have hcopy := @content_part s got (rest.take n) hcontent
  rw [takePayload_full callback hn (by rw [hvalue, hoffset, hend])]
  simp only [hfits, hoffset, hvalue, Bool.false_eq_true, if_false, Bool.not_false, Bool.and_true]
  refine ⟨⟨holds_reset s.currentMessageSize, rfl⟩, trivial, rfl, ?_, ?_, ?_⟩
  · rw [hlast] at hcopy
    cases callback
    · rfl
    · simp [hcopy, hword, deliveredReport, hlast]
  · rcases hgot with hlt | ⟨rfl, rfl⟩
    · have hrun := Phase.run_payload_full s.maxMessageSize.toNat total got (rest.take n) hlt
        (by rw [htake, hend])
      have happ := Phase.run_append s.maxMessageSize.toNat (.payload total got) (rest.take n)
        (rest.drop n)
      rwa [List.take_append_drop, hrun] at happ
    · -- an empty message is delivered without a byte of its own
      have hzero : n = 0 := by omega
      subst hzero
      exact Phase.run_payload_empty s.maxMessageSize.toNat hne
  · exact copiesWithin_cons (by omega) callback_of_mem_ite

theorem takePayload_payload_part {total : Nat} (h : Tracks s (.payload total got))
    (hmore : got.length + rest.length < total) :
    Advance callback s.maxMessageSize.toNat (.payload total got) rest
      (takePayload callback s rest) (.payload total (got ++ rest)) [] := by
  obtain ⟨⟨count, hsize⟩, hle, hoffset, _, hcontent⟩ := h
  have hvalue := value_complete hsize
  have hlt := s.currentMessageSize.value.toNat_lt
  have hfits : s.currentMessageTooLarge = false := by
    rw [currentMessageTooLarge_complete hsize, decide_eq_false_iff_not]
    omega
  have hoff := @offset_add s rest.length (by omega)
  rw [takePayload_part callback (by rw [hvalue, hoffset]; exact hmore)]
  simp only [hfits, hoffset, Bool.false_eq_true, if_false]
  refine .of_split (List.append_nil rest).symm
    (Phase.run_payload_part _ total got rest hmore)
    ⟨⟨count, hsize⟩, hle, ?_, .inl ?_, content_part hcontent⟩ trivial rfl (by simp)
    (copiesWithin_cons (by omega) (by simp))
  · rw [List.length_append, ← hoffset]
    exact hoff
  · rwa [List.length_append]

theorem takePayload_payload {total : Nat} (h : Tracks s (.payload total got)) (hne : rest ≠ []) :
    ∃ p' owed, Advance callback s.maxMessageSize.toNat (.payload total got) rest
        (takePayload callback s rest) p' owed ∧
      pendingRounds (takePayload callback s rest).1 (takePayload callback s rest).2.2 <
        pendingRounds s rest := by
  obtain ⟨count, hsize⟩ := h.1
  have hcomplete := isComplete_complete hsize
  have hvalue := value_complete hsize
  have hoffset : s.currentMessageOffset.toNat = got.length := h.2.2.1
  have hgot : got.length ≤ total := by
    rcases h.2.2.2.1 with hlt | ⟨_, rfl⟩
    · exact Nat.le_of_lt hlt
    · exact Nat.zero_le _
  by_cases hend : total - got.length ≤ rest.length
  · have hsum : got.length + (total - got.length) = total := by omega
    refine ⟨_, _, takePayload_payload_full callback h hne hend hsum, ?_⟩
    rw [takePayload_full callback hend (by rw [hvalue, hoffset, hsum])]
    exact pendingRounds_full hcomplete _
  · have hmore : got.length + rest.length < total := by omega
    refine ⟨_, _, takePayload_payload_part callback h hmore, ?_⟩
    rw [takePayload_part callback (by rw [hvalue, hoffset]; exact hmore)]
    exact pendingRounds_part hcomplete hne _ _

theorem takePayload_skip_full {total seen n : Nat} (h : Tracks s (.skip total seen))
    (hn : n ≤ rest.length) (hend : seen + n = total) :
    Advance callback s.maxMessageSize.toNat (.skip total seen) rest
      (takePayload callback s rest) (.size 0 0) [] := by
  obtain ⟨⟨count, hsize⟩, hgt, hoffset, hlt⟩ := h
  have hvalue := value_complete hsize
  have hlarge : s.currentMessageTooLarge = true := by
    simp [currentMessageTooLarge_complete hsize, hgt]
  have htake : (rest.take n).length = n := List.length_take_of_le hn
  rw [takePayload_full callback hn (by rw [hvalue, hoffset, hend])]
  simp only [hlarge, if_true, Bool.not_true, Bool.and_false, Bool.false_eq_true, if_false,
    List.append_nil]
  exact .of_split (List.take_append_drop n rest).symm
    (Phase.run_skip_full _ total seen (rest.take n) hlt (by rw [htake, hend]))
    ⟨holds_reset s.currentMessageSize, rfl⟩ trivial rfl (by simp)
    (copiesWithin_callbacks (by simp))

theorem takePayload_skip_part {total seen : Nat} (h : Tracks s (.skip total seen))
    (hmore : seen + rest.length < total) :
    Advance callback s.maxMessageSize.toNat (.skip total seen) rest
      (takePayload callback s rest) (.skip total (seen + rest.length)) [] := by
  obtain ⟨⟨count, hsize⟩, hgt, hoffset, _⟩ := h
  have hvalue := value_complete hsize
  have hlt := s.currentMessageSize.value.toNat_lt
  have hlarge : s.currentMessageTooLarge = true := by
    simp [currentMessageTooLarge_complete hsize, hgt]
  have hoff := @offset_add s rest.length (by omega)
  rw [takePayload_part callback (by rw [hvalue, hoffset]; exact hmore)]
  simp only [hlarge, if_true]
  refine .of_split (List.append_nil rest).symm (Phase.run_skip_part _ total seen rest hmore)
    ⟨⟨count, hsize⟩, hgt, ?_, hmore⟩ trivial rfl (by simp) (copiesWithin_callbacks (by simp))
  rw [← hoffset]
  exact hoff

theorem takePayload_skip {total seen : Nat} (h : Tracks s (.skip total seen)) (hne : rest ≠ []) :
    ∃ p' owed, Advance callback s.maxMessageSize.toNat (.skip total seen) rest
        (takePayload callback s rest) p' owed ∧
      pendingRounds (takePayload callback s rest).1 (takePayload callback s rest).2.2 <
        pendingRounds s rest := by
  obtain ⟨count, hsize⟩ := h.1
  have hcomplete := isComplete_complete hsize
  have hvalue := value_complete hsize
  have hoffset : s.currentMessageOffset.toNat = seen := h.2.2.1
  have hseen : seen < total := h.2.2.2
  by_cases hend : total - seen ≤ rest.length
  · have hsum : seen + (total - seen) = total := by omega
    refine ⟨_, _, takePayload_skip_full callback h hend hsum, ?_⟩
    rw [takePayload_full callback hend (by rw [hvalue, hoffset, hsum])]
    exact pendingRounds_full hcomplete _
  · have hmore : seen + rest.length < total := by omega
    refine ⟨_, _, takePayload_skip_part callback h hmore, ?_⟩
    rw [takePayload_part callback (by rw [hvalue, hoffset]; exact hmore)]
    exact pendingRounds_part hcomplete hne _ _

theorem takePayload_live {p : Phase} (h : Tracks s p) (hlive : p.Live)
    (hcomplete : s.currentMessageSize.isComplete = true) (hne : rest ≠ []) :
    ∃ p' owed, Advance callback s.maxMessageSize.toNat p rest (takePayload callback s rest)
        p' owed ∧
      pendingRounds (takePayload callback s rest).1 (takePayload callback s rest).2.2 <
        pendingRounds s rest := by
  cases p with
  | size count value =>
      rw [isComplete_reading h.1] at hcomplete
      cases hcomplete
  | payload total got => exact takePayload_payload callback h hne
  | skip total seen => exact takePayload_skip callback h hne
  | failed dropped => exact hlive.elim

end

/-! ## A failed size -/

/-- With a failed size the payload part takes all bytes for payload: the size is
then read as the invalid value, the largest word, and is not too large. -/
theorem takePayload_failed (callback : Bool) {dropped n : Nat} (h : Tracks s (.failed dropped))
    (rest : List UInt8) (hn : n = min (2 ^ 64 - 1 - dropped) rest.length) :
    (takePayload callback s rest).1.maxMessageSize = s.maxMessageSize ∧
    (takePayload callback s rest).2.2 = rest.drop n ∧
    ((dropped + rest.length < 2 ^ 64 - 1 ∧
        Tracks (takePayload callback s rest).1 (.failed (dropped + rest.length)) ∧
        (takePayload callback s rest).2.1 = [.memcpy dropped rest.length]) ∨
      (2 ^ 64 - 1 ≤ dropped + rest.length ∧
        Tracks (takePayload callback s rest).1 (.size 0 0) ∧
        ∃ delivered : List Report, (takePayload callback s rest).2.1 =
          .memcpy dropped (2 ^ 64 - 1 - dropped) :: delivered.map .callback)) := by
  obtain ⟨hsize, hoffset, hlt⟩ := h
  have hopen := isComplete_failed hsize
  have hvalue : s.currentMessageSize.value.toNat = 2 ^ 64 - 1 := by
    rw [value_failed hsize]
    rfl
  have hfits := currentMessageTooLarge_open hopen
  by_cases hend : dropped + rest.length < 2 ^ 64 - 1
  · have hall : n = rest.length := by omega
    have hoff := @offset_add s rest.length (by omega)
    have hpart := @takePayload_part s rest callback (by rw [hvalue, hoffset]; exact hend)
    simp only [hfits, hoffset, Bool.false_eq_true, if_false] at hpart
    rw [hpart]
    refine ⟨rfl, by rw [hall, List.drop_length], .inl ⟨hend, ⟨hsize, ?_, hend⟩, rfl⟩⟩
    rw [← hoffset]
    exact hoff
  · have hroom : n = 2 ^ 64 - 1 - dropped := by omega
    have hpart := @takePayload_full s n rest callback (by omega) (by rw [hvalue, hoffset]; omega)
    simp only [hfits, hoffset, Bool.false_eq_true, if_false] at hpart
    rw [hpart]
    refine ⟨rfl, rfl, .inr ⟨by omega, ⟨holds_reset s.currentMessageSize, rfl⟩, ?_⟩⟩
    rw [← hroom]
    cases callback
    · exact ⟨[], rfl⟩
    · exact ⟨[_], rfl⟩

theorem copiesWithin_map_callback (limit : Nat) (rs : List Report) :
    CopiesWithin limit (rs.map .callback) := by
  apply copiesWithin_callbacks
  intro e he
  obtain ⟨r, _, rfl⟩ := List.mem_map.mp he
  exact ⟨r, rfl⟩

/-- No copy reaches behind the largest word, whatever the state. -/
theorem takePayload_failed_copies (callback : Bool) {dropped : Nat} (h : Tracks s (.failed dropped))
    (rest : List UInt8) : CopiesWithin (2 ^ 64 - 1) (takePayload callback s rest).2.1 := by
  have hlt := h.2.2
  obtain ⟨-, -, ⟨hend, -, heffects⟩ | ⟨hend, -, delivered, heffects⟩⟩ :=
    takePayload_failed callback h rest rfl
  · rw [heffects]
    exact copiesWithin_cons (by omega) (by simp)
  · rw [heffects]
    intro o n hmem
    rcases List.mem_cons.mp hmem with heq | hmem
    · cases heq
      omega
    · exact copiesWithin_map_callback _ delivered o n hmem

end TarmIo.Net.MessageClient
