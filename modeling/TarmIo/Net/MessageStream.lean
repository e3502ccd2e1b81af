import TarmIo.Net.ReceiveRefinement

/-!
# What a message-oriented client makes of a stream

Results over whole chunkings of a stream, from a fresh object on. Well-formed
streams are reported as the bytewise receiver owes it, under every chunking. A
stream with a rejected size field is where the code departs from it: the
failed size is taken for a payload length, so later bytes are copied as far as
they come, and each later chunk reports the error again.
-/

namespace TarmIo.Net

open Foundation

/-! ## Errors owed by the bytewise receiver -/

theorem tooLongReport_ne_protocolError (size : Nat) : tooLongReport size ≠ protocolErrorReport := by
  intro h
  cases congrArg (fun r => r.error.code) h

theorem deliveredReport_ne_protocolError (message : List UInt8) :
    deliveredReport message ≠ protocolErrorReport := by
  intro h
  cases congrArg (fun r => r.bytes) h

def EndsInError (rs : List Report) : Prop :=
  ∃ before, rs = before ++ [protocolErrorReport] ∧ protocolErrorReport ∉ before

theorem EndsInError.append {xs rs : List Report} (hx : protocolErrorReport ∉ xs)
    (h : EndsInError rs) : EndsInError (xs ++ rs) := by
  obtain ⟨before, rfl, hbefore⟩ := h
  refine ⟨xs ++ before, by simp, ?_⟩
  intro hmem
  rcases List.mem_append.mp hmem with h | h
  · exact hx h
  · exact hbefore h

theorem EndsInError.count {rs : List Report} (h : EndsInError rs) :
    rs.count protocolErrorReport = 1 := by
  obtain ⟨before, rfl, hbefore⟩ := h
  simp [List.count_append, List.count_eq_zero_of_not_mem hbefore]

namespace Phase

variable {p : Phase}

theorem dropped_le_run (limit : Nat) (p : Phase) (bs : List UInt8) :
    p.dropped ≤ (run limit p bs).1.dropped := by
  cases p with
  | failed dropped =>
      rw [run_failed]
      exact Nat.le_add_right _ _
  | size count value => exact Nat.zero_le _
  | payload total got => exact Nat.zero_le _
  | skip total seen => exact Nat.zero_le _

theorem stepSize_reports (limit count value : Nat) (b : UInt8) :
    ((stepSize limit count value b).1.Live ∧
        protocolErrorReport ∉ (stepSize limit count value b).2) ∨
      ((stepSize limit count value b).1 = .failed 1 ∧
        EndsInError (stepSize limit count value b).2) := by
  unfold stepSize
  split
  · exact .inl ⟨trivial, List.not_mem_nil⟩
  · rename_i total _
    refine .inl ⟨live_announce limit total, ?_⟩
    unfold announce
    split
    · exact List.not_mem_nil
    · intro hmem
      exact tooLongReport_ne_protocolError total (List.mem_singleton.mp hmem).symm
  · exact .inr ⟨rfl, [], rfl, List.not_mem_nil⟩

/-- A live phase reports an error only where it rejects the size. -/
theorem step_reports (limit : Nat) (h : p.Live) (b : UInt8) :
    ((step limit p b).1.Live ∧ protocolErrorReport ∉ (step limit p b).2) ∨
      ((step limit p b).1 = .failed 1 ∧ EndsInError (step limit p b).2) := by
  have hdelivered : ∀ message, protocolErrorReport ∉ [deliveredReport message] := by
    intro message hmem
    exact deliveredReport_ne_protocolError message (List.mem_singleton.mp hmem).symm
  cases p with
  | size count value => exact stepSize_reports limit count value b
  | payload total got =>
      simp only [step]
      split
      · rcases stepSize_reports limit 0 0 b with ⟨hlive, hnot⟩ | ⟨hfailed, hends⟩
        · refine .inl ⟨hlive, ?_⟩
          intro hmem
          rcases List.mem_cons.mp hmem with heq | hmem
          · exact deliveredReport_ne_protocolError [] heq.symm
          · exact hnot hmem
        · exact .inr ⟨hfailed, hends.append (hdelivered [])⟩
      · split
        · exact .inl ⟨trivial, hdelivered _⟩
        · exact .inl ⟨trivial, List.not_mem_nil⟩
  | skip total seen =>
      simp only [step]
      split <;> exact .inl ⟨trivial, List.not_mem_nil⟩
  | failed dropped => exact h.elim

/-- A whole run owes one protocol error, as its last report, or none. -/
theorem run_reports (limit : Nat) (h : p.Live) (bs : List UInt8) :
    ((run limit p bs).1.Live ∧ protocolErrorReport ∉ (run limit p bs).2) ∨
      (∃ more, (run limit p bs).1 = .failed (1 + more) ∧ EndsInError (run limit p bs).2) := by
  induction bs generalizing p with
  | nil => exact .inl ⟨h, List.not_mem_nil⟩
  | cons b bs ih =>
      rw [run_cons]
      rcases step_reports limit h b with ⟨hlive, hnot⟩ | ⟨hfailed, hends⟩
      · rcases ih hlive with ⟨hlive', hnot'⟩ | ⟨more, hfailed, hends⟩
        · refine .inl ⟨hlive', ?_⟩
          intro hmem
          rcases List.mem_append.mp hmem with hm | hm
          · exact hnot hm
          · exact hnot' hm
        · exact .inr ⟨more, hfailed, hends.append hnot⟩
      · rw [hfailed, run_failed, List.append_nil]
        exact .inr ⟨bs.length, rfl, hends⟩

end Phase

namespace MessageClient

/-! ## Runs over chunks -/

variable {s : MessageClient} {p : Phase} {chunks : List DataChunk}

def streamOf (chunks : List DataChunk) : List UInt8 := (chunks.map DataChunk.bytes).flatten

theorem streamOf_cons (c : DataChunk) (cs : List DataChunk) :
    streamOf (c :: cs) = c.bytes ++ streamOf cs := rfl

theorem receiveAll_cons (callback : Bool) (s : MessageClient) (c : DataChunk)
    (cs : List DataChunk) :
    receiveAll callback s (c :: cs) =
      ((receiveAll callback (onDataReceive callback s c {}).1 cs).1,
        (onDataReceive callback s c {}).2 ++
          (receiveAll callback (onDataReceive callback s c {}).1 cs).2) := rfl

theorem receiveAll_append (callback : Bool) (s : MessageClient) (xs ys : List DataChunk) :
    receiveAll callback s (xs ++ ys) =
      ((receiveAll callback (receiveAll callback s xs).1 ys).1,
        (receiveAll callback s xs).2 ++
          (receiveAll callback (receiveAll callback s xs).1 ys).2) :=
  feed_append _ s xs ys

/-- No copy of a run reaches behind the largest word. -/
theorem receiveAll_copies_word (callback : Bool) (h : Tracks s p) (chunks : List DataChunk) :
    CopiesWithin (2 ^ 64 - 1) (receiveAll callback s chunks).2 := by
  induction chunks generalizing s p with
  | nil => exact copiesWithin_map_callback _ []
  | cons c cs ih =>
      obtain ⟨⟨q, hq⟩, hcopies⟩ := receiveLoop_tracked callback (roundsBound c.bytes) h c.bytes
      exact hcopies.append (ih hq)

/-- While the dropped bytes fit a word, the run is tracked, and its copies stay in
the allocation or in as many bytes as were dropped. -/
theorem receiveAll_tracks (callback : Bool) (h : Tracks s p) (hne : ∀ c ∈ chunks, c.bytes ≠ [])
    (hsmall : (Phase.run s.maxMessageSize.toNat p (streamOf chunks)).1.dropped < 2 ^ 64 - 1) :
    Tracks (receiveAll callback s chunks).1
        (Phase.run s.maxMessageSize.toNat p (streamOf chunks)).1 ∧
      (receiveAll callback s chunks).1.maxMessageSize.toNat = s.maxMessageSize.toNat ∧
      CopiesWithin (max s.maxMessageSize.toNat
          (Phase.run s.maxMessageSize.toNat p (streamOf chunks)).1.dropped)
        (receiveAll callback s chunks).2 := by
  induction chunks generalizing s p with
  | nil => exact ⟨h, rfl, copiesWithin_map_callback _ []⟩
  | cons c cs ih =>
      rw [streamOf_cons, Phase.run_append] at hsmall ⊢
      have hf := onDataReceive_follows callback h c (hne c List.mem_cons_self)
      have hmono := Phase.dropped_le_run s.maxMessageSize.toNat
        (Phase.run s.maxMessageSize.toNat p c.bytes).1 (streamOf cs)
      have hfirst := Nat.lt_of_le_of_lt hmono hsmall
      have hrec := @ih _ _ (hf.tracks hfirst) (fun d hd => hne d (List.mem_cons_of_mem c hd))
        (by rw [hf.limit_eq]; exact hsmall)
      rw [hf.limit_eq] at hrec
      obtain ⟨htracks, hlimit, hcopies⟩ := hrec
      refine ⟨htracks, hlimit, ((hf.copies hfirst).mono ?_).append hcopies⟩
      simp only at hmono ⊢
      omega

/-- Once more bytes were dropped than the allocation holds, some copy left it. -/
theorem receiveAll_overrun (callback : Bool) {s : MessageClient} {p : Phase} (h : Tracks s p)
    {chunks : List DataChunk} (hne : ∀ c ∈ chunks, c.bytes ≠ [])
    (hword : s.maxMessageSize.toNat < 2 ^ 64 - 1) (hbefore : p.dropped ≤ s.maxMessageSize.toNat)
    (hafter : s.maxMessageSize.toNat <
      (Phase.run s.maxMessageSize.toNat p (streamOf chunks)).1.dropped) :
    ¬ CopiesWithin s.maxMessageSize.toNat (receiveAll callback s chunks).2 := by
  induction chunks generalizing s p with
  | nil => exact absurd hbefore (Nat.not_le_of_lt hafter)
  | cons c cs ih =>
      have hf := onDataReceive_follows callback h c (hne c List.mem_cons_self)
      intro hcopies
      rw [receiveAll_cons] at hcopies
      by_cases hmore : s.maxMessageSize.toNat <
          (Phase.run s.maxMessageSize.toNat p c.bytes).1.dropped
      · obtain ⟨o, n, hmem, hsum⟩ := hf.overrun (by omega)
        have hle := hcopies o n (List.mem_append_left _ hmem)
        omega
      · rw [streamOf_cons, Phase.run_append] at hafter
        have htail := @ih _ _ (hf.tracks (by omega))
          (fun d hd => hne d (List.mem_cons_of_mem c hd)) (by rw [hf.limit_eq]; exact hword)
          (by rw [hf.limit_eq]; omega) (by rw [hf.limit_eq]; exact hafter)
        apply htail
        rw [hf.limit_eq]
        exact fun o n hmem => hcopies o n (List.mem_append_right _ hmem)

/-- A run in which no byte follows a rejected one reports what the receiver owes. -/
theorem receiveAll_reports (callback : Bool) (h : Tracks s p) (hlive : p.Live)
    (hne : ∀ c ∈ chunks, c.bytes ≠ [])
    (hlast : (Phase.run s.maxMessageSize.toNat p (streamOf chunks)).1.dropped ≤ 1) :
    reports (receiveAll callback s chunks).2 =
      if callback then (Phase.run s.maxMessageSize.toNat p (streamOf chunks)).2 else [] := by
  induction chunks generalizing s p with
  | nil => cases callback <;> rfl
  | cons c cs ih =>
      rw [streamOf_cons, Phase.run_append] at hlast ⊢
      have hf := onDataReceive_follows callback h c (hne c List.mem_cons_self)
      have hmono := Phase.dropped_le_run s.maxMessageSize.toNat
        (Phase.run s.maxMessageSize.toNat p c.bytes).1 (streamOf cs)
      have hsmall : (Phase.run s.maxMessageSize.toNat p c.bytes).1.dropped < 2 ^ 64 - 1 := by
        simp only at hlast
        omega
      have hfirst := hf.reports_eq hsmall
      rw [chunkReports_live _ hlive] at hfirst
      rw [receiveAll_cons, reports_append, hfirst]
      rcases Phase.run_reports s.maxMessageSize.toNat hlive c.bytes with
        ⟨hmid, _⟩ | ⟨more, hfailed, _⟩
      · have hrec := @ih _ _ (hf.tracks hsmall) hmid
          (fun d hd => hne d (List.mem_cons_of_mem c hd)) (by rw [hf.limit_eq]; exact hlast)
        rw [hf.limit_eq] at hrec
        rw [hrec]
        cases callback <;> simp
      · -- The rejected byte was the last one, so no chunk is left.
        cases cs with
        | nil => cases callback <;> simp [receiveAll, streamOf]
        | cons d ds =>
            have hd := List.length_pos_iff.mpr
              (hne d (List.mem_cons_of_mem c List.mem_cons_self))
            rw [hfailed] at hlast
            simp only [Phase.run_failed, Phase.dropped, streamOf_cons, List.length_append] at hlast
            omega

end MessageClient

/-! ## Streams and their chunkings -/

variable {stream : List UInt8} {chunks : List DataChunk}

theorem IsChunking.nonempty (h : IsChunking stream chunks) : ∀ c ∈ chunks, c.bytes ≠ [] :=
  fun c hc => IsCut.nonempty h c.bytes (List.mem_map_of_mem hc)

theorem IsChunking.streamOf_eq (h : IsChunking stream chunks) :
    MessageClient.streamOf chunks = stream :=
  IsCut.flatten_eq h

def byteChunks (stream : List UInt8) : List DataChunk :=
  stream.map fun b => ⟨[b], by simp⟩

theorem byteChunks_isChunking (stream : List UInt8) : IsChunking stream (byteChunks stream) := by
  have h := IsCut.singletons stream
  rwa [IsChunking, byteChunks, List.map_map]

theorem byteChunks_append (xs ys : List UInt8) :
    byteChunks (xs ++ ys) = byteChunks xs ++ byteChunks ys := List.map_append

theorem Frame.size_lt (f : Frame) : f.payload.length < 2 ^ 56 := by
  have hlt := groupsFrom_lt f.size
  rw [f.size_isField.value] at hlt
  have hpow : 128 ^ f.size.length ≤ 128 ^ 8 := Nat.pow_le_pow_right (by decide) f.size_length
  omega

namespace MessageClient

/-! ## Where the copies go -/

/-- Copies stay inside the receive buffer exactly when no more bytes come with and
behind a rejected byte than the buffer holds. (With the largest word as limit no
copy can leave the buffer.) -/
theorem receive_copies_within_iff (maxMessageSize : UInt64) (memory : Nat → UInt8)
    (callback : Bool) {stream : List UInt8} {chunks : List DataChunk}
    (h : IsChunking stream chunks) :
    CopiesWithin maxMessageSize.toNat
        (receiveAll callback (fresh maxMessageSize memory) chunks).2 ↔
      maxMessageSize.toNat = 2 ^ 64 - 1 ∨
        ∀ tail, RejectedTail stream tail → tail.length ≤ maxMessageSize.toNat := by
  have htracks := tracks_fresh maxMessageSize memory
  have hword := maxMessageSize.toNat_lt
  constructor
  · intro hcopies
    by_cases hmax : maxMessageSize.toNat = 2 ^ 64 - 1
    · exact .inl hmax
    · refine .inr fun tail htail => Nat.le_of_not_lt fun hgt => ?_
      have hrun := Phase.run_rejected maxMessageSize.toNat htail
      refine receiveAll_overrun callback htracks h.nonempty (show maxMessageSize.toNat < _ by omega)
        (Nat.zero_le _) ?_ hcopies
      rw [h.streamOf_eq]
      change _ < (Phase.run maxMessageSize.toNat (.size 0 0) stream).1.dropped
      rw [hrun]
      exact hgt
  · rintro (hmax | hshort)
    · rw [hmax]
      exact receiveAll_copies_word callback htracks chunks
    · by_cases hmax : maxMessageSize.toNat = 2 ^ 64 - 1
      · rw [hmax]
        exact receiveAll_copies_word callback htracks chunks
      · have hdropped : (Phase.run maxMessageSize.toNat (.size 0 0) (streamOf chunks)).1.dropped ≤
            maxMessageSize.toNat := by
          rw [h.streamOf_eq]
          exact Phase.dropped_run_le _ hshort
        obtain ⟨_, _, hcopies⟩ := receiveAll_tracks callback htracks h.nonempty
          (show (Phase.run maxMessageSize.toNat (.size 0 0) (streamOf chunks)).1.dropped < _ by
            omega)
        exact hcopies.mono (Nat.max_le.mpr ⟨Nat.le_refl _, hdropped⟩)

def rejectedStream : List UInt8 := List.replicate 8 0x80 ++ [1, 2, 3, 4]

def rejectedChunk : DataChunk := ⟨rejectedStream, by decide⟩

theorem rejectedChunk_isChunking : IsChunking rejectedStream [rejectedChunk] :=
  IsCut.whole (by decide)

/-- Five bytes are copied into a buffer of four. -/
theorem receive_copies_overrun :
    IsChunking rejectedStream [rejectedChunk] ∧
      .memcpy 0 5 ∈ (receiveAll true (fresh 4 fun _ => 0) [rejectedChunk]).2 ∧
      ¬ CopiesWithin (4 : UInt64).toNat
        (receiveAll true (fresh 4 fun _ => 0) [rejectedChunk]).2 := by
  have hmem : .memcpy 0 5 ∈ (receiveAll true (fresh 4 fun _ => 0) [rejectedChunk]).2 := by
    decide +kernel
  refine ⟨rejectedChunk_isChunking, hmem, ?_⟩
  intro hcopies
  exact absurd (hcopies 0 5 hmem) (by decide)

theorem receive_copies_within_iff_rejected :
    IsChunking rejectedStream [rejectedChunk] ∧
      (CopiesWithin (5 : UInt64).toNat
          (receiveAll true (fresh 5 fun _ => 0) [rejectedChunk]).2 ↔
        (5 : UInt64).toNat = 2 ^ 64 - 1 ∨
          ∀ tail, RejectedTail rejectedStream tail → tail.length ≤ (5 : UInt64).toNat) :=
  ⟨rejectedChunk_isChunking, receive_copies_within_iff 5 (fun _ => 0) true rejectedChunk_isChunking⟩

/-! ## Well-formed streams -/

theorem receive_reports (maxMessageSize : UInt64) (memory : Nat → UInt8) {stream : List UInt8}
    (h : IsChunking stream chunks)
    (hlast : (Phase.run maxMessageSize.toNat (.size 0 0) stream).1.dropped ≤ 1) :
    reports (receiveAll true (fresh maxMessageSize memory) chunks).2 =
      (Phase.run maxMessageSize.toNat (.size 0 0) stream).2 := by
  have hreports := receiveAll_reports true (tracks_fresh maxMessageSize memory) trivial h.nonempty
  rw [h.streamOf_eq] at hreports
  exact hreports hlast

theorem receive_frames (maxMessageSize : UInt64) (memory : Nat → UInt8) {frames : List Frame}
    (hne : ∀ f ∈ frames, f.payload ≠ []) (h : IsChunking (frames.flatMap Frame.bytes) chunks) :
    reports (receiveAll true (fresh maxMessageSize memory) chunks).2 =
      frames.map (Frame.report maxMessageSize.toNat) := by
  have hrun := Phase.run_frames maxMessageSize.toNat frames hne
  have hreports := receive_reports maxMessageSize memory h (by rw [hrun]; exact Nat.zero_le _)
  rw [hreports, hrun]

/-- Frames of any well-formed size field, under any chunking: one report for each, in
order. A frame within the limit is delivered whole; a longer one is reported with
its true size and none of its bytes. -/
theorem receive_oversized_skipped (maxMessageSize : UInt64) (memory : Nat → UInt8)
    {frames : List Frame} (hne : ∀ f ∈ frames, f.payload ≠ []) {chunks : List DataChunk}
    (h : IsChunking (frames.flatMap Frame.bytes) chunks) :
    reports (receiveAll true (fresh maxMessageSize memory) chunks).2 =
        frames.map (fun f =>
          if f.payload.length ≤ maxMessageSize.toNat then
            ⟨some f.payload, UInt64.ofNat f.payload.length, {}⟩
          else ⟨none, UInt64.ofNat f.payload.length, .ofCode .messageTooLong⟩) ∧
      ∀ f ∈ frames, (UInt64.ofNat f.payload.length).toNat = f.payload.length := by
  refine ⟨receive_frames maxMessageSize memory hne h, ?_⟩
  intro f _
  have hlt := f.size_lt
  rw [UInt64.toNat_ofNat']
  omega

def mixedFrames : List Frame :=
  [⟨[0x80, 1], [7], by decide, ⟨⟨[0x80], 1, rfl, by simp [Marked], by decide⟩, by decide⟩⟩,
    ⟨[3], [8, 9, 10], by decide, ⟨⟨[], 3, rfl, nofun, by decide⟩, by decide⟩⟩]

theorem receive_oversized_skipped_mixed :
    reports (receiveAll true (fresh 2 fun _ => 0)
          (byteChunks (mixedFrames.flatMap Frame.bytes))).2 =
        mixedFrames.map (fun f =>
          if f.payload.length ≤ (2 : UInt64).toNat then
            ⟨some f.payload, UInt64.ofNat f.payload.length, {}⟩
          else ⟨none, UInt64.ofNat f.payload.length, .ofCode .messageTooLong⟩) ∧
      ∀ f ∈ mixedFrames, (UInt64.ofNat f.payload.length).toNat = f.payload.length :=
  receive_oversized_skipped 2 (fun _ => 0) (by decide) (byteChunks_isChunking _)

/-! ## Independence of the chunking -/

theorem receiveAll_failed_byte {s : MessageClient} {dropped : Nat}
    (h : Tracks s (.failed dropped)) (hsmall : dropped + 1 < 2 ^ 64 - 1) (c : UInt8) :
    reports (receiveAll true s (byteChunks [c])).2 = [protocolErrorReport] := by
  have hnext := onDataReceive_follows true h ⟨[c], by simp⟩ (by simp)
  have hdropped :
      (Phase.run s.maxMessageSize.toNat (.failed dropped) [c]).1.dropped < 2 ^ 64 - 1 := by
    rw [Phase.run_failed]
    exact hsmall
  rw [byteChunks, List.map_singleton, receiveAll_cons, receiveAll, feed_nil, List.append_nil]
  exact hnext.reports_eq hdropped

/-- Byte by byte, each byte behind the rejected one repeats the error. -/
theorem receive_bytes_error_twice (maxMessageSize : UInt64) (memory : Nat → UInt8)
    {stream tail : List UInt8} (h : RejectedTail stream tail) (hlong : 1 < tail.length) :
    2 ≤ (reports (receiveAll true (fresh maxMessageSize memory)
      (byteChunks stream)).2).count protocolErrorReport := by
  obtain ⟨frames, marked, b, rest, rfl, hlen, hmarked, hb, rfl⟩ := h
  obtain ⟨c, rest, rfl⟩ : ∃ c more, rest = c :: more := by
    cases rest with
    | nil => exact absurd hlong (Nat.lt_irrefl _)
    | cons c more => exact ⟨c, more, rfl⟩
  obtain ⟨front, hfront⟩ : ∃ front, front = frames.flatMap Frame.bytes ++ (marked ++ [b]) :=
    ⟨_, rfl⟩
  have hsplit : frames.flatMap Frame.bytes ++ (marked ++ b :: c :: rest) =
      front ++ ([c] ++ rest) := by
    simp [hfront]
  have hrejected : RejectedTail front [b] :=
    ⟨frames, marked, b, [], hfront, hlen, hmarked, hb, rfl⟩
  have hrun : (Phase.run maxMessageSize.toNat (.size 0 0) front).1 = .failed 1 :=
    Phase.run_rejected maxMessageSize.toNat hrejected
  have hchunks := byteChunks_isChunking front
  have hends : EndsInError (reports (receiveAll true (fresh maxMessageSize memory)
      (byteChunks front)).2) := by
    rw [receive_reports maxMessageSize memory hchunks (by rw [hrun]; exact Nat.le_refl 1)]
    rcases Phase.run_reports maxMessageSize.toNat (show (Phase.size 0 0).Live from trivial) front
      with ⟨hlive, _⟩ | ⟨_, _, hends⟩
    · rw [hrun] at hlive
      exact hlive.elim
    · exact hends
  have htracks : Tracks (receiveAll true (fresh maxMessageSize memory) (byteChunks front)).1
      (.failed 1) := by
    have hall := receiveAll_tracks true (tracks_fresh maxMessageSize memory) hchunks.nonempty
    rw [hchunks.streamOf_eq] at hall
    change (Phase.run maxMessageSize.toNat (.size 0 0) front).1.dropped < _ →
      Tracks _ (Phase.run maxMessageSize.toNat (.size 0 0) front).1 ∧ _ at hall
    rw [hrun] at hall
    exact (hall (by decide)).1
  rw [hsplit, byteChunks_append, byteChunks_append, receiveAll_append, receiveAll_append]
  simp only [reports_append, List.count_append, hends.count,
    receiveAll_failed_byte htracks (by decide) c, List.count_singleton_self]
  omega

/-- The reports do not depend on the chunking, and a malformed size is reported once
and last, exactly when no byte follows the one that is rejected. -/
theorem receive_chunking_independent_iff (maxMessageSize : UInt64) (stream : List UInt8) :
    ((∀ memory₁ memory₂ xs ys, IsChunking stream xs → IsChunking stream ys →
        reports (receiveAll true (fresh maxMessageSize memory₁) xs).2 =
          reports (receiveAll true (fresh maxMessageSize memory₂) ys).2) ∧
      ∀ memory xs tail, IsChunking stream xs → RejectedTail stream tail →
        EndsInError (reports (receiveAll true (fresh maxMessageSize memory) xs).2)) ↔
      ∀ tail, RejectedTail stream tail → tail.length = 1 := by
  constructor
  · rintro ⟨_, honce⟩ tail htail
    have hpos := htail.length_pos
    by_contra hlong
    have hcount := (honce (fun _ => 0) _ tail (byteChunks_isChunking stream) htail).count
    have htwice := receive_bytes_error_twice maxMessageSize (fun _ => 0) htail (by omega)
    omega
  · intro hlast
    have hsmall : (Phase.run maxMessageSize.toNat (.size 0 0) stream).1.dropped ≤ 1 :=
      Phase.dropped_run_le _ fun tail htail => Nat.le_of_eq (hlast tail htail)
    constructor
    · intro memory₁ memory₂ xs ys hx hy
      rw [receive_reports maxMessageSize memory₁ hx hsmall,
        receive_reports maxMessageSize memory₂ hy hsmall]
    · intro memory xs tail hx htail
      rw [receive_reports maxMessageSize memory hx hsmall]
      rcases Phase.run_reports maxMessageSize.toNat (show (Phase.size 0 0).Live from trivial)
        stream with ⟨hlive, _⟩ | ⟨_, _, hends⟩
      · rw [Phase.run_rejected maxMessageSize.toNat htail] at hlive
        exact hlive.elim
      · exact hends

/-- Nine marked bytes in one chunk are reported once, cut behind the eighth twice. -/
theorem receive_chunking_differs :
    IsChunking (List.replicate 9 0x80) [⟨List.replicate 9 0x80, by decide⟩] ∧
      IsChunking (List.replicate 9 0x80) [⟨List.replicate 8 0x80, by decide⟩, ⟨[0x80], by decide⟩] ∧
      reports (receiveAll true (fresh 16 fun _ => 0)
          [⟨List.replicate 9 0x80, by decide⟩]).2 = [protocolErrorReport] ∧
      reports (receiveAll true (fresh 16 fun _ => 0)
          [⟨List.replicate 8 0x80, by decide⟩, ⟨[0x80], by decide⟩]).2 =
        [protocolErrorReport, protocolErrorReport] := by
  refine ⟨IsCut.whole (by decide), ⟨rfl, by decide⟩, ?_, ?_⟩
  · decide +kernel
  · decide +kernel

end MessageClient

end TarmIo.Net
