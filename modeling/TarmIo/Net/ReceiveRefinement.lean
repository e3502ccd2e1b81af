import TarmIo.Net.ReceiveParts

/-!
# `on_data_receive` against the bytewise receiver

A round of the loop is its two parts in turn. A whole chunk makes the receiver's
steps as long as no size field was rejected before it; a failed decoder reports
once for each chunk and keeps copying.
-/

namespace TarmIo.Net.MessageClient

open Foundation TarmIo.Core VariableLengthSize

/-! ## One round -/

variable {s : MessageClient} {rest : List UInt8} {p : Phase}

section

variable (callback : Bool)
include callback

/-- A round with a failed size: one more error, then the payload part. -/
theorem receiveRound_failed {dropped : Nat} (h : Tracks s (.failed dropped)) (hne : rest ≠ []) :
    receiveRound callback s rest =
      ((takePayload callback s rest).1,
        (if callback then [.callback protocolErrorReport] else []) ++
          (takePayload callback s rest).2.1,
        (takePayload callback s rest).2.2) := by
  have hloop := addBytesLoop_failed h.1 rest
  have hsize : readSize callback s rest =
      (s, if callback then [.callback protocolErrorReport] else [], rest) := by
    rw [readSize_failed callback (by rw [hloop]; exact h.1), hloop, List.drop_zero]
  simp [receiveRound, isComplete_failed h.1, hsize, hne]

theorem receiveRound_complete (hcomplete : s.currentMessageSize.isComplete = true)
    (hne : rest ≠ []) : receiveRound callback s rest = takePayload callback s rest := by
  simp [receiveRound, hcomplete, hne]

theorem receiveRound_open (rest : List UInt8) (hopen : s.currentMessageSize.isComplete = false) :
    receiveRound callback s rest =
      if (readSize callback s rest).2.2 = [] then readSize callback s rest
      else
        let payload := takePayload callback (readSize callback s rest).1
          (readSize callback s rest).2.2
        (payload.1, (readSize callback s rest).2.1 ++ payload.2.1, payload.2.2) := by
  simp [receiveRound, hopen]

theorem receiveRound_reading {count value : Nat} (h : Tracks s (.size count value))
    (hne : rest ≠ []) :
    (∃ p' owed, Advance callback s.maxMessageSize.toNat (.size count value) rest
        (receiveRound callback s rest) p' owed ∧
      pendingRounds (receiveRound callback s rest).1 (receiveRound callback s rest).2.2 <
        pendingRounds s rest) ∨
    (∃ r, Rejects callback s.maxMessageSize.toNat (.size count value) rest r ∧
      receiveRound callback s rest = receiveRound callback r.1 r.2.2) := by
  have hlen : 0 < rest.length := List.length_pos_iff.mpr hne
  have hopen := isComplete_reading h.1
  have hweight : pendingRounds s rest = 2 * rest.length := by
    simp [pendingRounds, hopen]
  rw [receiveRound_open callback rest hopen]
  rcases readSize_reading callback h rest with ⟨q, owed, hadv, hleft⟩ | hrej
  · left
    by_cases hnil : (readSize callback s rest).2.2 = []
    · rw [if_pos hnil]
      refine ⟨q, owed, hadv, ?_⟩
      rw [hweight, hnil, pendingRounds, List.length_nil]
      split <;> omega
    · obtain ⟨hdone, hshort⟩ := hleft.resolve_left hnil
      obtain ⟨q', owed', hadv', hless⟩ :=
        takePayload_live callback hadv.tracks hadv.live hdone hnil
      rw [pendingRounds_complete hdone] at hless
      rw [hadv.limit_eq] at hadv'
      rw [if_neg hnil]
      refine ⟨q', owed ++ owed', hadv.trans hadv', ?_⟩
      simp only
      omega
  · right
    refine ⟨_, hrej, ?_⟩
    rw [if_neg hrej.ne_nil, receiveRound_failed callback hrej.tracks hrej.ne_nil,
      ← hrej.effects_eq]

/-- What one round does: the receiver's steps, or a rejected size. It is then the
round of the failed state on the bytes from the rejected one on. -/
theorem receiveRound_live (h : Tracks s p) (hlive : p.Live) (hne : rest ≠ []) :
    (∃ p' owed, Advance callback s.maxMessageSize.toNat p rest (receiveRound callback s rest)
        p' owed ∧
      pendingRounds (receiveRound callback s rest).1 (receiveRound callback s rest).2.2 <
        pendingRounds s rest) ∨
    (∃ r, Rejects callback s.maxMessageSize.toNat p rest r ∧
      receiveRound callback s rest = receiveRound callback r.1 r.2.2) := by
  cases p with
  | size count value => exact receiveRound_reading callback h hne
  | payload total got =>
      obtain ⟨count, hsize⟩ := h.1
      left
      rw [receiveRound_complete callback (isComplete_complete hsize) hne]
      exact takePayload_payload callback h hne
  | skip total seen =>
      obtain ⟨count, hsize⟩ := h.1
      left
      rw [receiveRound_complete callback (isComplete_complete hsize) hne]
      exact takePayload_skip callback h hne
  | failed dropped => exact hlive.elim

theorem takePayload_maxMessageSize (s : MessageClient) (rest : List UInt8) :
    (takePayload callback s rest).1.maxMessageSize = s.maxMessageSize := by
  simp only [takePayload]
  split <;> rfl

theorem receiveRound_maxMessageSize (s : MessageClient) (rest : List UInt8) :
    (receiveRound callback s rest).1.maxMessageSize = s.maxMessageSize := by
  simp only [receiveRound]
  split
  · split
    · rfl
    · exact takePayload_maxMessageSize callback s rest
  · split
    · rfl
    · exact takePayload_maxMessageSize callback _ _

theorem receiveLoop_maxMessageSize (rounds : Nat) (s : MessageClient) (rest : List UInt8) :
    (receiveLoop callback rounds s rest).1.maxMessageSize = s.maxMessageSize := by
  induction rounds generalizing s rest with
  | zero => rfl
  | succ rounds ih =>
      simp only [receiveLoop]
      split
      · rfl
      · simp only [ih, receiveRound_maxMessageSize]

end

@[simp] theorem receiveLoop_nil (callback : Bool) (rounds : Nat) (s : MessageClient) :
    receiveLoop callback rounds s [] = (s, []) := by
  cases rounds <;> simp [receiveLoop]

theorem receiveLoop_succ (callback : Bool) (rounds : Nat) (s : MessageClient) (hne : rest ≠ []) :
    receiveLoop callback (rounds + 1) s rest =
      ((receiveLoop callback rounds (receiveRound callback s rest).1
          (receiveRound callback s rest).2.2).1,
        (receiveRound callback s rest).2.1 ++
          (receiveLoop callback rounds (receiveRound callback s rest).1
            (receiveRound callback s rest).2.2).2) := by
  simp [receiveLoop, hne]

theorem copiesWithin_error (limit : Nat) (callback : Bool) :
    CopiesWithin limit (if callback then [.callback protocolErrorReport] else []) := by
  cases callback
  · exact copiesWithin_map_callback limit []
  · exact copiesWithin_map_callback limit [protocolErrorReport]

theorem receiveRound_failed_tracked (callback : Bool) {dropped : Nat}
    (h : Tracks s (.failed dropped)) (hne : rest ≠ []) :
    (∃ p', Tracks (receiveRound callback s rest).1 p') ∧
      CopiesWithin (2 ^ 64 - 1) (receiveRound callback s rest).2.1 ∧
      pendingRounds (receiveRound callback s rest).1 (receiveRound callback s rest).2.2 <
        2 * rest.length := by
  have hlen : 0 < rest.length := List.length_pos_iff.mpr hne
  have hlt := h.2.2
  have hcopies := (copiesWithin_error _ callback).append (takePayload_failed_copies callback h rest)
  obtain ⟨-, hrest, hcases⟩ := takePayload_failed callback h rest rfl
  rw [receiveRound_failed callback h hne]
  simp only [pendingRounds, hrest, List.length_drop]
  rcases hcases with ⟨_, htracks, _⟩ | ⟨_, htracks, _⟩
  · refine ⟨⟨_, htracks⟩, hcopies, ?_⟩
    rw [isComplete_failed htracks.1]
    simp only [Bool.false_eq_true, if_false]
    omega
  · refine ⟨⟨_, htracks⟩, hcopies, ?_⟩
    rw [isComplete_reading htracks.1]
    simp only [Bool.false_eq_true, if_false]
    omega

/-- One round from any tracked state: the next state is tracked, no copy reaches
behind the largest word, and fewer rounds are left. -/
theorem receiveRound_tracked (callback : Bool) (h : Tracks s p) (hne : rest ≠ []) :
    (∃ p', Tracks (receiveRound callback s rest).1 p') ∧
      CopiesWithin (2 ^ 64 - 1) (receiveRound callback s rest).2.1 ∧
      pendingRounds (receiveRound callback s rest).1 (receiveRound callback s rest).2.2 <
        pendingRounds s rest := by
  have hleast : 2 * rest.length ≤ pendingRounds s rest := Nat.le_add_right _ _
  have hmax := s.maxMessageSize.toNat_lt
  by_cases hlive : p.Live
  · rcases receiveRound_live callback h hlive hne with ⟨p', owed, hadv, hless⟩ | ⟨r, hrej, heq⟩
    · exact ⟨⟨p', hadv.tracks⟩, hadv.copies.mono (by omega), hless⟩
    · obtain ⟨htracks, hcopies, hless⟩ :=
        receiveRound_failed_tracked callback hrej.tracks hrej.ne_nil
      have hle := hrej.length_le
      rw [heq]
      exact ⟨htracks, hcopies, by omega⟩
  · cases p with
    | failed dropped =>
        obtain ⟨htracks, hcopies, hless⟩ := receiveRound_failed_tracked callback h hne
        exact ⟨htracks, hcopies, by omega⟩
    | size count value => exact absurd trivial hlive
    | payload total got => exact absurd trivial hlive
    | skip total seen => exact absurd trivial hlive

/-! ## The loop -/

theorem receiveLoop_tracked (callback : Bool) (rounds : Nat) (h : Tracks s p) (rest : List UInt8) :
    (∃ p', Tracks (receiveLoop callback rounds s rest).1 p') ∧
      CopiesWithin (2 ^ 64 - 1) (receiveLoop callback rounds s rest).2 := by
  induction rounds generalizing s p rest with
  | zero => exact ⟨⟨p, h⟩, copiesWithin_map_callback _ []⟩
  | succ rounds ih =>
      by_cases hne : rest = []
      · subst hne
        rw [receiveLoop_nil]
        exact ⟨⟨p, h⟩, copiesWithin_map_callback _ []⟩
      · obtain ⟨⟨q, hq⟩, hcopies, _⟩ := receiveRound_tracked callback h hne
        obtain ⟨htracks, hmore⟩ := ih hq (receiveRound callback s rest).2.2
        rw [receiveLoop_succ callback rounds s hne]
        exact ⟨htracks, hcopies.append hmore⟩

/-- The loop is over when the pending rounds are done: more rounds change nothing. -/
theorem receiveLoop_enough (callback : Bool) {rounds : Nat} (h : Tracks s p)
    (hrounds : pendingRounds s rest ≤ rounds) (more : Nat) :
    receiveLoop callback (rounds + more) s rest = receiveLoop callback rounds s rest := by
  induction rounds generalizing s p rest with
  | zero =>
      have hnil : rest = [] := by
        apply List.eq_nil_of_length_eq_zero
        have hleast : 2 * rest.length ≤ pendingRounds s rest := Nat.le_add_right _ _
        omega
      rw [hnil, receiveLoop_nil, receiveLoop_nil]
  | succ rounds ih =>
      by_cases hne : rest = []
      · rw [hne, receiveLoop_nil, receiveLoop_nil]
      · obtain ⟨⟨q, hq⟩, _, hless⟩ := receiveRound_tracked callback h hne
        have hleft : pendingRounds (receiveRound callback s rest).1
            (receiveRound callback s rest).2.2 ≤ rounds := by omega
        have hrec := ih hq hleft
        rw [show rounds + 1 + more = (rounds + more) + 1 by omega,
          receiveLoop_succ callback _ s hne, receiveLoop_succ callback _ s hne, hrec]

/-- What the code reports for one chunk: after a rejected size an error for each. -/
def chunkReports (limit : Nat) (p : Phase) (bs : List UInt8) : List Report :=
  match p with
  | .failed _ => [protocolErrorReport]
  | p => (Phase.run limit p bs).2

theorem chunkReports_live (limit : Nat) (h : p.Live) (bs : List UInt8) :
    chunkReports limit p bs = (Phase.run limit p bs).2 := by
  cases p with
  | failed dropped => exact h.elim
  | size count value => rfl
  | payload total got => rfl
  | skip total seen => rfl

/-- The result of one chunk, against the receiver's run over its bytes. Behind a
rejected size the copies follow the dropped bytes, until their number does not fit
a word any more. -/
structure Follows (callback : Bool) (limit : Nat) (p : Phase) (bs : List UInt8)
    (out : MessageClient × List ReceiveEffect) : Prop where
  limit_eq : out.1.maxMessageSize.toNat = limit
  tracks : (Phase.run limit p bs).1.dropped < 2 ^ 64 - 1 → Tracks out.1 (Phase.run limit p bs).1
  reports_eq : (Phase.run limit p bs).1.dropped < 2 ^ 64 - 1 →
    reports out.2 = if callback then chunkReports limit p bs else []
  copies : (Phase.run limit p bs).1.dropped < 2 ^ 64 - 1 →
    CopiesWithin (max limit (Phase.run limit p bs).1.dropped) out.2
  overrun : p.dropped < (Phase.run limit p bs).1.dropped →
    ∃ o n, .memcpy o n ∈ out.2 ∧ o + n = min (Phase.run limit p bs).1.dropped (2 ^ 64 - 1)

theorem receiveLoop_failed_follows (callback : Bool) (rounds : Nat) {dropped : Nat}
    (h : Tracks s (.failed dropped)) {bs : List UInt8} (hne : bs ≠ []) :
    Follows callback s.maxMessageSize.toNat (.failed dropped) bs
      (receiveLoop callback (rounds + 1) s bs) := by
  have hlimit := receiveLoop_maxMessageSize callback (rounds + 1) s bs
  have hlt := h.2.2
  have hrun := Phase.run_failed s.maxMessageSize.toNat dropped bs
  rw [receiveLoop_succ callback rounds s hne, receiveRound_failed callback h hne] at hlimit ⊢
  obtain ⟨-, hrest, ⟨hsmall, htracks, heffects⟩ | ⟨hlarge, -, delivered, heffects⟩⟩ :=
    takePayload_failed callback h bs rfl
  · have hnil : (takePayload callback s bs).2.2 = [] := by
      rw [hrest, List.drop_eq_nil_iff]
      omega
    simp only [hnil, receiveLoop_nil, heffects, List.append_nil] at hlimit ⊢
    constructor
    · rw [hlimit]
    · intro _
      rw [hrun]
      exact htracks
    · intro _
      cases callback <;> rfl
    · intro _
      rw [hrun]
      refine (copiesWithin_error _ callback).append (copiesWithin_cons ?_ (by simp))
      exact Nat.le_max_right _ _
    · intro _
      rw [hrun]
      refine ⟨dropped, bs.length, by simp, ?_⟩
      simp only [Phase.dropped]
      omega
  · simp only at hlimit ⊢
    have hfalse : ¬ (Phase.run s.maxMessageSize.toNat (.failed dropped) bs).1.dropped <
        2 ^ 64 - 1 := by
      rw [hrun]
      simp only [Phase.dropped]
      omega
    constructor
    · rw [hlimit]
    · exact fun hs => absurd hs hfalse
    · exact fun hs => absurd hs hfalse
    · exact fun hs => absurd hs hfalse
    · intro _
      refine ⟨dropped, 2 ^ 64 - 1 - dropped, ?_, ?_⟩
      · rw [heffects]
        simp
      · rw [hrun]
        simp only [Phase.dropped]
        omega

theorem Follows.advance {callback : Bool} {limit : Nat} {p p' : Phase}
    {r : MessageClient × List ReceiveEffect × List UInt8} {owed : List Report}
    {out : MessageClient × List ReceiveEffect} (hlive : p.Live)
    (hadv : Advance callback limit p rest r p' owed) (h : Follows callback limit p' r.2.2 out) :
    Follows callback limit p rest (out.1, r.2.1 ++ out.2) := by
  have hend : (Phase.run limit p rest).1 = (Phase.run limit p' r.2.2).1 := by rw [hadv.run_eq]
  constructor
  · exact h.limit_eq
  · rw [hend]
    exact h.tracks
  · rw [hend]
    intro hsmall
    rw [reports_append, hadv.reports_eq, h.reports_eq hsmall, chunkReports_live limit hlive,
      chunkReports_live limit hadv.live, hadv.run_eq]
    cases callback <;> simp
  · rw [hend]
    intro hsmall
    exact (hadv.copies.mono (Nat.le_max_left _ _)).append (h.copies hsmall)
  · rw [hend, hlive.dropped_eq, ← hadv.live.dropped_eq]
    intro hmore
    obtain ⟨o, n, hmem, hsum⟩ := h.overrun hmore
    exact ⟨o, n, List.mem_append_right _ hmem, hsum⟩

/-- A rejected size leads into the failed state at its first byte. -/
theorem Follows.reject {callback : Bool} {limit : Nat}
    {r : MessageClient × List ReceiveEffect × List UInt8} {out : MessageClient × List ReceiveEffect}
    (hlive : p.Live) (hrej : Rejects callback limit p rest r)
    (h : Follows callback limit (.failed 0) r.2.2 out) : Follows callback limit p rest out := by
  have hend : (Phase.run limit p rest).1 = (Phase.run limit (.failed 0) r.2.2).1 := by
    rw [hrej.run_eq, Phase.run_failed, Nat.zero_add]
  constructor
  · exact h.limit_eq
  · rw [hend]
    exact h.tracks
  · rw [hend]
    intro hsmall
    rw [h.reports_eq hsmall, chunkReports_live limit hlive, hrej.run_eq]
    rfl
  · rw [hend]
    exact h.copies
  · rw [hend, hlive.dropped_eq]
    exact h.overrun

section

variable (callback : Bool) (h : Tracks s p)
include callback h

theorem follows_nil (hlive : p.Live) : Follows callback s.maxMessageSize.toNat p [] (s, []) := by
  constructor
  · rfl
  · exact fun _ => h
  · intro _
    rw [chunkReports_live _ hlive, Phase.run_nil]
    cases callback <;> rfl
  · exact fun _ => copiesWithin_map_callback _ []
  · exact fun hmore => absurd hmore (Nat.lt_irrefl _)

theorem receiveLoop_live_follows {rounds : Nat} (hlive : p.Live) {bs : List UInt8}
    (hrounds : pendingRounds s bs ≤ rounds) :
    Follows callback s.maxMessageSize.toNat p bs (receiveLoop callback rounds s bs) := by
  have hleast : 2 * bs.length ≤ pendingRounds s bs := Nat.le_add_right _ _
  induction rounds generalizing s p bs with
  | zero =>
      have hnil : bs = [] := List.eq_nil_of_length_eq_zero (by omega)
      subst hnil
      exact follows_nil callback h hlive
  | succ rounds ih =>
      by_cases hne : bs = []
      · subst hne
        rw [receiveLoop_nil]
        exact follows_nil callback h hlive
      · rcases receiveRound_live callback h hlive hne with
          ⟨p', owed, hadv, hless⟩ | ⟨r, hrej, hround⟩
        · have hrec := @ih _ _ hadv.tracks hadv.live (receiveRound callback s bs).2.2 (by omega)
            (Nat.le_add_right _ _)
          rw [hadv.limit_eq] at hrec
          rw [receiveLoop_succ callback rounds s hne]
          exact Follows.advance hlive hadv hrec
        · have hrec := receiveLoop_failed_follows callback rounds hrej.tracks hrej.ne_nil
          rw [hrej.limit_eq, receiveLoop_succ callback rounds _ hrej.ne_nil, ← hround] at hrec
          rw [receiveLoop_succ callback rounds s hne]
          exact Follows.reject hlive hrej hrec

/-- A chunk from any tracked state. -/
theorem onDataReceive_follows (data : DataChunk) (hne : data.bytes ≠ []) :
    Follows callback s.maxMessageSize.toNat p data.bytes
      (onDataReceive callback s data {}) := by
  have hrounds : pendingRounds s data.bytes ≤ roundsBound data.bytes := by
    rw [pendingRounds, roundsBound]
    split <;> omega
  cases p with
  | failed dropped => exact receiveLoop_failed_follows callback _ h hne
  | size count value => exact receiveLoop_live_follows callback h trivial hrounds
  | payload total got => exact receiveLoop_live_follows callback h trivial hrounds
  | skip total seen => exact receiveLoop_live_follows callback h trivial hrounds

end

end TarmIo.Net.MessageClient
