import TarmIo.Net.KeptChunks
import TarmIo.Net.KeptStream
import TarmIo.Net.ReceiveRefinement

/-!
# Messages that the user keeps

A message is delivered as `m_buffer` itself, and the next message is copied to the same place. A
message that the user keeps is thus a view of the buffer that later rounds of `on_data_receive`
write to. Here the loop is taken round by round, with the delivered messages beside it, and compared
with the bytes of the stream.
-/

namespace TarmIo.Net.MessageClient

open Foundation TarmIo.Core VariableLengthSize

/-! ## Copies and deliveries -/

variable {s : MessageClient} {rest : List UInt8}

/-- The memory after a copy, which has an offset and bytes. -/
def written (memory : Nat → UInt8) : Option (Nat × List UInt8) → Nat → UInt8
  | none => memory
  | some (offset, bytes) => memcpy memory offset bytes

/-- A copy leaves a message as it is exactly when it matches it. -/
theorem content_written_iff {memory : Nat → UInt8} {message : List UInt8}
    (h : content memory message.length = message) (write : Option (Nat × List UInt8)) :
    content (written memory write) message.length = message ↔ Matches message write := by
  rw [content_eq_iff] at h ⊢
  match write with
  | none => exact iff_of_true h trivial
  | some (offset, bytes) =>
      refine forall_congr' fun i => forall_congr' fun hi => ?_
      by_cases hin : offset ≤ i ∧ i < offset + bytes.length
      · have hlt : i - offset < bytes.length := by omega
        simp only [written, memcpy, hin, and_self, if_true, forall_const, List.getD,
          List.getElem?_eq_getElem hlt, Option.getD_some]
        exact eq_comm
      · simp only [written, memcpy, hin, if_false]
        refine iff_of_true (h i hi) ?_
        intro hle hlt
        exact absurd ⟨hle, hlt⟩ hin

def delivered (effects : List ReceiveEffect) : List (List UInt8) := messagesOf (reports effects)

theorem delivered_append (xs ys : List ReceiveEffect) :
    delivered (xs ++ ys) = delivered xs ++ delivered ys := by
  rw [delivered, reports_append, messagesOf, List.filterMap_append]
  rfl

/-- The size part reports errors only, with a null buffer. -/
theorem delivered_readSize (s : MessageClient) (rest : List UInt8) :
    delivered (readSize true s rest).2.1 = [] := by
  unfold readSize
  rw [delivered_append]
  split <;> split <;> rfl

/-! ## A round and the stream -/

variable {p p' : Phase} {write : Option (Nat × List UInt8)}

/-- What a part of a round does, seen from the stream: it goes on from another phase, and a stream
agrees with the kept messages if the copy matches them and what is left of the stream agrees. What
it delivers is in the buffer. -/
structure Hears (s : MessageClient) (p : Phase) (rest : List UInt8)
    (r : MessageClient × List ReceiveEffect × List UInt8) (write : Option (Nat × List UInt8))
    (p' : Phase) : Prop where
  tracks : Tracks r.1 p'
  limit_eq : r.1.maxMessageSize = s.maxMessageSize
  room : p'.dropped + r.2.2.length ≤ p.dropped + rest.length
  buffer_eq : r.1.buffer = written s.buffer write
  intact : ∀ message ∈ delivered r.2.1, content r.1.buffer message.length = message
  agrees_iff : ∀ keep ms more,
    Phase.AgreesFrom s.maxMessageSize.toNat keep p ms (rest ++ more) ↔
      (∀ message ∈ keptOf keep ms, Matches message write) ∧
        Phase.AgreesFrom s.maxMessageSize.toNat keep p' (ms ++ delivered r.2.1) (r.2.2 ++ more)

/-- A part that makes steps of the receiver. -/
theorem Advance.hears {r : MessageClient × List ReceiveEffect × List UInt8} {owed : List Report}
    (h : Advance true s.maxMessageSize.toNat p rest r p' owed)
    (hlength : r.2.2.length ≤ rest.length) (hbuffer : r.1.buffer = written s.buffer write)
    (hintact : ∀ message ∈ messagesOf owed, content r.1.buffer message.length = message)
    (hagrees : ∀ keep ms more,
      Phase.AgreesFrom s.maxMessageSize.toNat keep p ms (rest ++ more) ↔
        (∀ message ∈ keptOf keep ms, Matches message write) ∧
          Phase.AgreesFrom s.maxMessageSize.toNat keep p' (ms ++ messagesOf owed) (r.2.2 ++ more)) :
    Hears s p rest r write p' := by
  have hdelivered : delivered r.2.1 = messagesOf owed := congrArg messagesOf h.reports_eq
  refine ⟨h.tracks, UInt64.toNat_inj.mp h.limit_eq, ?_, hbuffer, ?_, ?_⟩
  · rw [h.live.dropped_eq]
    omega
  · rwa [hdelivered]
  · rwa [hdelivered]

theorem takePayload_hears_payload {total : Nat} {got : List UInt8}
    (h : Tracks s (.payload total got)) (hne : rest ≠ []) :
    ∃ write p', Hears s (.payload total got) rest (takePayload true s rest) write p' := by
  obtain ⟨⟨count, hsize⟩, hlimit, hoffset, hgot, hcontent⟩ := id h
  have hvalue := value_complete hsize
  have hfits : s.currentMessageTooLarge = false := by
    rw [currentMessageTooLarge_complete hsize, decide_eq_false_iff_not]
    omega
  have hgotLe : got.length ≤ total := by
    rcases hgot with hlt | ⟨_, rfl⟩
    · exact Nat.le_of_lt hlt
    · exact Nat.zero_le _
  by_cases hend : total - got.length ≤ rest.length
  · have hsum : got.length + (total - got.length) = total := by omega
    have hfull := @takePayload_full s (total - got.length) rest true hend
      (by rw [hvalue, hoffset, hsum])
    simp only [hfits, hoffset, Bool.false_eq_true, if_false] at hfull
    refine ⟨some (got.length, rest.take (total - got.length)), _,
      (takePayload_payload_full true h hne hend hsum).hears ?_ ?_ ?_ fun keep ms more => ?_⟩
    · rw [hfull, List.length_drop]
      exact Nat.sub_le _ _
    · rw [hfull]
      rfl
    · intro message hmessage
      obtain rfl := List.mem_singleton.mp hmessage
      rw [hfull]
      exact content_part hcontent
    · rw [hfull]
      rcases hgot with hlt | ⟨rfl, rfl⟩
      · exact Iff.trans (by rw [← List.append_assoc, List.take_append_drop])
          (Phase.agreesFrom_payload_full hlt (by rw [List.length_take_of_le hend, hsum]))
      · -- An empty message is delivered before the next byte is looked at.
        cases rest with
        | nil => exact absurd rfl hne
        | cons b rest =>
            refine Phase.agreesFrom_payload_empty.trans (and_iff_right fun message _ => ?_).symm
            exact matches_nil message 0
  · have hmore : got.length + rest.length < total := by omega
    have hpart := @takePayload_part s rest true (by rw [hvalue, hoffset]; exact hmore)
    simp only [hfits, hoffset, Bool.false_eq_true, if_false] at hpart
    refine ⟨some (got.length, rest), _,
      (takePayload_payload_part true h hmore).hears ?_ ?_ nofun fun keep ms more => ?_⟩
    · rw [hpart]
      exact Nat.zero_le _
    · rw [hpart]
      rfl
    · rw [hpart, messagesOf, List.filterMap_nil, List.append_nil]
      exact Phase.agreesFrom_payload_part hmore

theorem takePayload_hears_skip {total seen : Nat} (h : Tracks s (.skip total seen)) :
    ∃ p', Hears s (.skip total seen) rest (takePayload true s rest) none p' := by
  obtain ⟨⟨count, hsize⟩, hgt, hoffset, hlt⟩ := id h
  have hvalue := value_complete hsize
  have hlarge : s.currentMessageTooLarge = true := by
    simp [currentMessageTooLarge_complete hsize, hgt]
  by_cases hend : total - seen ≤ rest.length
  · have hsum : seen + (total - seen) = total := by omega
    have hfull := @takePayload_full s (total - seen) rest true hend
      (by rw [hvalue, hoffset, hsum])
    simp only [hlarge, if_true] at hfull
    refine ⟨_, (takePayload_skip_full true h hend hsum).hears ?_ ?_ nofun fun keep ms more => ?_⟩
    · rw [hfull, List.length_drop]
      exact Nat.sub_le _ _
    · rw [hfull]
      rfl
    · rw [hfull, messagesOf, List.filterMap_nil, List.append_nil,
        ← Phase.agreesFrom_skip_full hlt (by rw [List.length_take_of_le hend, hsum]),
        ← List.append_assoc, List.take_append_drop]
      exact (and_iff_right fun _ _ => trivial).symm
  · have hmore : seen + rest.length < total := by omega
    have hpart := @takePayload_part s rest true (by rw [hvalue, hoffset]; exact hmore)
    simp only [hlarge, if_true] at hpart
    refine ⟨_, (takePayload_skip_part true h hmore).hears ?_ ?_ nofun fun keep ms more => ?_⟩
    · rw [hpart]
      exact Nat.zero_le _
    · rw [hpart]
      rfl
    · rw [hpart, messagesOf, List.filterMap_nil, List.append_nil, List.nil_append]
      exact (Phase.agreesFrom_skip_part hmore).trans (and_iff_right fun _ _ => trivial).symm

/-- Behind a rejected size all bytes are copied, one behind the other. -/
theorem takePayload_hears_failed {dropped : Nat} (h : Tracks s (.failed dropped))
    (hroom : dropped + rest.length < 2 ^ 64 - 1) :
    Hears s (.failed dropped) rest (takePayload true s rest) (some (dropped, rest))
      (.failed (dropped + rest.length)) := by
  obtain ⟨hsize, hoffset, _⟩ := id h
  have hvalue : s.currentMessageSize.value.toNat = 2 ^ 64 - 1 := by
    rw [value_failed hsize]
    rfl
  have hpart := @takePayload_part s rest true (by rw [hvalue, hoffset]; exact hroom)
  simp only [currentMessageTooLarge_open (isComplete_failed hsize), hoffset, Bool.false_eq_true,
    if_false] at hpart
  obtain ⟨-, -, ⟨_, htracks, _⟩ | ⟨hlarge, _⟩⟩ := takePayload_failed true h rest rfl
  · refine ⟨htracks, ?_, ?_, ?_, ?_, fun keep ms more => ?_⟩ <;> rw [hpart]
    · exact Nat.le_refl _
    · rfl
    · nofun
    · exact Phase.agreesFrom_failed.trans (by simp [delivered, messagesOf, reports])
  · omega

/-- The size part copies and delivers nothing. -/
theorem readSize_hears_of (htracks : Tracks (readSize true s rest).1 p')
    (hroom : p'.dropped + (readSize true s rest).2.2.length ≤ p.dropped + rest.length)
    (hagrees : ∀ keep ms more,
      Phase.AgreesFrom s.maxMessageSize.toNat keep p ms (rest ++ more) ↔
        Phase.AgreesFrom s.maxMessageSize.toNat keep p' ms ((readSize true s rest).2.2 ++ more)) :
    Hears s p rest (readSize true s rest) none p' := by
  have hdelivered := delivered_readSize s rest
  refine ⟨htracks, rfl, hroom, rfl, by simp [hdelivered], fun keep ms more => ?_⟩
  rw [hdelivered, List.append_nil, hagrees]
  exact (and_iff_right fun _ _ => trivial).symm

/-- The size part of a round ends behind the size, at the rejected byte, or with all bytes. -/
theorem readSize_hears {count value : Nat} (h : Tracks s (.size count value))
    (rest : List UInt8) :
    ∃ p', Hears s (.size count value) rest (readSize true s rest) none p' ∧
      ((readSize true s rest).2.2 = [] ∨ ∀ count value, p' ≠ .size count value) := by
  obtain ⟨hsize, hoffset⟩ := h
  obtain ⟨htaken, hholds⟩ := addBytesLoop_refines hsize rest
  have hleft : (readSize true s rest).2.2 =
      rest.drop (s.currentMessageSize.addBytesLoop rest).1 := rfl
  rcases Progress.scan_reading hsize.1 rest with
    ⟨c, v, hscan, rfl, rfl, hlt, hall⟩ |
    ⟨init, last, tail, rfl, hinit, hlast, hlt, hscan⟩ |
    ⟨init, b, tail, rfl, hinit, hb, hlen, hscan⟩
  · rw [hscan] at htaken hholds
    have hrest : (readSize true s rest).2.2 = [] := by simp [hleft, htaken]
    refine ⟨.size _ _, readSize_hears_of ⟨hholds, hoffset⟩ ?_ fun keep ms more => ?_, .inl hrest⟩
    · rw [hrest]
      exact Nat.zero_le _
    · rw [hrest]
      exact Phase.agreesFrom_size_marked hall hlt
  · rw [hscan] at htaken hholds
    have hrest : (readSize true s (init ++ last :: tail)).2.2 = tail := by simp [hleft, htaken]
    refine ⟨_, readSize_hears_of (tracks_announce hholds hoffset) ?_ fun keep ms more => ?_,
      .inr ?_⟩
    · rw [(Phase.live_announce _ _).dropped_eq, hrest]
      simp only [List.length_append, List.length_cons]
      omega
    · rw [hrest, List.append_assoc, Phase.agreesFrom_size_marked hinit hlt, List.cons_append,
        Phase.agreesFrom_size_last hlast, groupsFrom_append]
      rfl
    · intro count value
      rw [Phase.announce]
      split <;> simp
  · rw [hscan] at htaken hholds
    have hseven : count + init.length = 7 := by omega
    have hrest : (readSize true s (init ++ b :: tail)).2.2 = b :: tail := by simp [hleft, htaken]
    refine ⟨.failed 0, readSize_hears_of ⟨hholds, hoffset, by decide⟩ ?_ fun keep ms more => ?_,
      .inr (by simp)⟩
    · rw [hrest]
      simp [Phase.dropped]
    · rw [hrest, List.append_assoc, Phase.agreesFrom_size_marked hinit (by omega), hseven,
        List.cons_append, Phase.agreesFrom_size_rejected hb]

theorem takePayload_hears (h : Tracks s p) (hsize : ∀ count value, p ≠ .size count value)
    (hne : rest ≠ []) (hroom : p.dropped + rest.length < 2 ^ 64 - 1) :
    ∃ write p', Hears s p rest (takePayload true s rest) write p' := by
  cases p with
  | size count value => exact absurd rfl (hsize count value)
  | payload total got => exact takePayload_hears_payload h hne
  | skip total seen => exact ⟨none, takePayload_hears_skip h⟩
  | failed dropped => exact ⟨_, _, takePayload_hears_failed h hroom⟩

/-- With a failed size nothing is read. -/
theorem readSize_hears_failed {dropped : Nat} (h : Tracks s (.failed dropped))
    (rest : List UInt8) : Hears s (.failed dropped) rest (readSize true s rest) none
      (.failed dropped) := by
  have hloop := addBytesLoop_failed h.1 rest
  have hsize : readSize true s rest = (s, [.callback protocolErrorReport], rest) := by
    rw [readSize_failed true (by rw [hloop]; exact h.1), hloop, List.drop_zero]
    rfl
  refine readSize_hears_of ?_ ?_ fun keep ms more => ?_ <;> rw [hsize]
  exact h

theorem receiveRound_hears_open {q : Phase} (hopen : s.currentMessageSize.isComplete = false)
    (hq : Hears s p rest (readSize true s rest) none q)
    (hsize : (readSize true s rest).2.2 = [] ∨ ∀ count value, q ≠ .size count value)
    (hroom : p.dropped + rest.length < 2 ^ 64 - 1) :
    ∃ write p', Hears s p rest (receiveRound true s rest) write p' := by
  rw [receiveRound_open true rest hopen]
  by_cases hnil : (readSize true s rest).2.2 = []
  · rw [if_pos hnil]
    exact ⟨none, q, hq⟩
  · rw [if_neg hnil]
    obtain ⟨write, p', hp'⟩ := takePayload_hears hq.tracks (hsize.resolve_left hnil) hnil
      (Nat.lt_of_le_of_lt hq.room hroom)
    have hdelivered := delivered_readSize s rest
    refine ⟨write, p', hp'.tracks, hp'.limit_eq, Nat.le_trans hp'.room hq.room, hp'.buffer_eq, ?_,
      fun keep ms more => ?_⟩
    · rw [delivered_append, hdelivered, List.nil_append]
      exact hp'.intact
    · rw [hq.agrees_iff, hdelivered, List.append_nil, delivered_append, hdelivered, List.nil_append]
      exact (and_iff_right fun _ _ => trivial).trans (hp'.agrees_iff keep ms more)

theorem receiveRound_hears (h : Tracks s p) (hne : rest ≠ [])
    (hroom : p.dropped + rest.length < 2 ^ 64 - 1) :
    ∃ write p', Hears s p rest (receiveRound true s rest) write p' := by
  by_cases hcomplete : s.currentMessageSize.isComplete = true
  · have hsize (count value : Nat) : p ≠ .size count value := by
      rintro rfl
      rw [isComplete_reading h.1] at hcomplete
      cases hcomplete
    rw [receiveRound_complete true hcomplete hne]
    exact takePayload_hears h hsize hne hroom
  · have hopen : s.currentMessageSize.isComplete = false := eq_false_of_ne_true hcomplete
    cases p with
    | size count value =>
        obtain ⟨q, hq, hsize⟩ := readSize_hears h rest
        exact receiveRound_hears_open hopen hq hsize hroom
    | failed dropped =>
        exact receiveRound_hears_open hopen (readSize_hears_failed h rest) (.inr (by simp)) hroom
    | payload total got | skip total got =>
        obtain ⟨count, hsize⟩ := h.1
        exact absurd (isComplete_complete hsize) hcomplete

end TarmIo.Net.MessageClient

namespace TarmIo.Net

open Foundation MessageClient

/-! ## A receiver and the messages kept from it -/

/-- A receiver inside or between calls of `on_data_receive`, the bytes of the chunk that are left,
and the messages as they were delivered. -/
structure Keeper where
  client : MessageClient
  rest : List UInt8 := []
  messages : List (List UInt8) := []

namespace Keeper

inductive Event
  | chunk (data : DataChunk)
  | round

def step (x : Keeper) : Event → Option Keeper
  | .chunk data => if x.rest = [] then some { x with rest := data.bytes } else none
  | .round =>
      if x.rest = [] then none
      else
        let r := receiveRound true x.client x.rest
        some { client := r.1, rest := r.2.2, messages := x.messages ++ delivered r.2.1 }

def stream (run : List Event) : List UInt8 :=
  run.flatMap fun
    | .chunk data => data.bytes
    | .round => []

theorem stream_chunk (data : DataChunk) (run : List Event) :
    stream (.chunk data :: run) = data.bytes ++ stream run := rfl

theorem stream_round (run : List Event) : stream (.round :: run) = stream run := rfl

def Intact (keep : Nat → Bool) (x : Keeper) : Prop :=
  ∀ message ∈ keptOf keep x.messages, content x.client.buffer message.length = message

variable {keep : Nat → Bool} {x y : Keeper} {p : Phase}

theorem step_round (hstep : x.step .round = some y) :
    x.rest ≠ [] ∧
      y =
        { client := (receiveRound true x.client x.rest).1
          rest := (receiveRound true x.client x.rest).2.2
          messages := x.messages ++ delivered (receiveRound true x.client x.rest).2.1 } := by
  rw [step] at hstep
  split at hstep
  · cases hstep
  · cases hstep
    exact ⟨by assumption, rfl⟩

/-- A round leaves the kept messages as they are exactly when its copy matches them. -/
theorem intact_round_iff {write : Option (Nat × List UInt8)} {q : Phase} (hx : x.Intact keep)
    (hround : Hears x.client p x.rest (receiveRound true x.client x.rest) write q)
    (hstep : x.step .round = some y) :
    y.Intact keep ↔ ∀ message ∈ keptOf keep x.messages, Matches message write := by
  obtain ⟨_, rfl⟩ := step_round hstep
  constructor
  · intro hy message hmessage
    have hafter := hy message (mem_keptOf_append_left hmessage _)
    rw [hround.buffer_eq] at hafter
    exact (content_written_iff (hx message hmessage) _).mp hafter
  · intro hmatches message hmessage
    rcases mem_of_mem_keptOf_append hmessage with hold | hnew
    · rw [hround.buffer_eq]
      exact (content_written_iff (hx message hold) _).mpr (hmatches message hold)
    · exact hround.intact message hnew

/-- The kept messages stay intact exactly when what is left of the stream agrees with them. -/
theorem throughout_intact_iff {limit : UInt64} {run : List Event} (htracks : Tracks x.client p)
    (hlimit : x.client.maxMessageSize = limit) (hx : x.Intact keep)
    (hroom : p.dropped + (x.rest ++ stream run).length < 2 ^ 64 - 1)
    (hrun : exec step x run = some y) (hdone : y.rest = []) :
    Throughout step (Intact keep) x run ↔
      Phase.AgreesFrom limit.toNat keep p x.messages (x.rest ++ stream run) := by
  induction run generalizing x p with
  | nil =>
      cases hrun
      rw [hdone]
      exact iff_of_true hx trivial
  | cons e run ih =>
      obtain ⟨x', hstep, htail⟩ := exec_cons_some hrun
      have hfirst : Throughout step (Intact keep) x (e :: run) ↔
          Throughout step (Intact keep) x' run := by
        refine ⟨fun h => h.2 x' hstep, fun h => ⟨hx, fun u hu => ?_⟩⟩
        cases hstep.symm.trans hu
        exact h
      rw [hfirst]
      cases e with
      | chunk data =>
          obtain ⟨hrest, rfl⟩ := by simpa [step] using hstep
          rw [stream_chunk, hrest, List.nil_append] at hroom ⊢
          exact ih htracks hlimit hx hroom htail
      | round =>
          rw [stream_round] at hroom ⊢
          obtain ⟨hne, hx'⟩ := step_round hstep
          have hround : p.dropped + x.rest.length < 2 ^ 64 - 1 := by
            rw [List.length_append] at hroom
            omega
          obtain ⟨write, p', hears⟩ := receiveRound_hears htracks hne hround
          have hagrees := hears.agrees_iff keep x.messages (stream run)
          rw [hlimit] at hagrees
          rw [hagrees]
          by_cases hintact : x'.Intact keep
          · rw [and_iff_right ((intact_round_iff hx hears hstep).mp hintact)]
            have hleft := hears.room
            subst hx'
            refine ih hears.tracks (hears.limit_eq.trans hlimit) hintact ?_ htail
            rw [List.length_append] at hroom ⊢
            dsimp only
            omega
          · refine iff_of_false (fun hall => hintact ?_) fun hall => hintact ?_
            · cases run with
              | nil => exact hall
              | cons e run => exact hall.1
            · exact (intact_round_iff hx hears hstep).mpr hall.1

/-! ## Whole calls -/

variable {maxMessageSize : UInt64} {memory : Nat → UInt8} {run : List Event}

theorem exec_rounds (h : Tracks x.client p) {bound : Nat}
    (hbound : pendingRounds x.client x.rest ≤ bound) :
    ∃ rounds y, exec step x (List.replicate rounds .round) = some y ∧
      y.rest = [] ∧ y.client = (receiveLoop true bound x.client x.rest).1 := by
  induction bound generalizing x p with
  | zero =>
      have hleast : 2 * x.rest.length ≤ pendingRounds x.client x.rest := Nat.le_add_right _ _
      exact ⟨0, x, rfl, List.eq_nil_of_length_eq_zero (by omega), rfl⟩
  | succ bound ih =>
      by_cases hnil : x.rest = []
      · exact ⟨0, x, rfl, hnil, by rw [hnil, receiveLoop_nil]⟩
      · obtain ⟨⟨q, hq⟩, _, hless⟩ := receiveRound_tracked true h hnil
        have hstep : x.step .round = some
            { client := (receiveRound true x.client x.rest).1
              rest := (receiveRound true x.client x.rest).2.2
              messages := x.messages ++ delivered (receiveRound true x.client x.rest).2.1 } := by
          rw [step, if_neg hnil]
        obtain ⟨rounds, y, hexec, hrest, hclient⟩ :=
          @ih { client := (receiveRound true x.client x.rest).1
                rest := (receiveRound true x.client x.rest).2.2
                messages := x.messages ++ delivered (receiveRound true x.client x.rest).2.1 }
            q hq (Nat.le_of_lt_succ (Nat.lt_of_lt_of_le hless hbound))
        refine ⟨rounds + 1, y, ?_, hrest, ?_⟩
        · rw [List.replicate_succ, exec_cons_of_step hstep]
          exact hexec
        · rw [receiveLoop_succ true bound x.client hnil]
          exact hclient

theorem tracked_step (x : Keeper) (e : Event) (y : Keeper) (h : ∃ p, Tracks x.client p)
    (hstep : x.step e = some y) : ∃ p, Tracks y.client p := by
  obtain ⟨p, hp⟩ := h
  cases e with
  | chunk data =>
      obtain ⟨_, rfl⟩ := by simpa [step] using hstep
      exact ⟨p, hp⟩
  | round =>
      obtain ⟨hne, rfl⟩ := step_round hstep
      exact (receiveRound_tracked true hp hne).1

/-- In every run a chunk and its rounds are a call of `on_data_receive`. -/
theorem exec_onDataReceive
    (hrun : exec step { client := fresh maxMessageSize memory } run = some x) (hrest : x.rest = [])
    (data : DataChunk) :
    ∃ rounds y, exec step x (.chunk data :: List.replicate rounds .round) = some y ∧
      y.rest = [] ∧ y.client = (onDataReceive true x.client data {}).1 := by
  obtain ⟨p, hp⟩ := exec_invariant tracked_step ⟨_, tracks_fresh maxMessageSize memory⟩ hrun
  have hstep : x.step (.chunk data) = some { x with rest := data.bytes } := by
    rw [step, if_pos hrest]
  have hbound : pendingRounds x.client data.bytes ≤ roundsBound data.bytes := by
    rw [pendingRounds, roundsBound]
    split <;> omega
  obtain ⟨rounds, y, hexec, hdone, hclient⟩ :=
    @exec_rounds { x with rest := data.bytes } p hp _ hbound
  exact ⟨rounds, y, by rw [exec_cons_of_step hstep, hexec], hdone, hclient⟩

theorem exec_onDataReceive_second :
    ∃ x ∈ exec step { client := fresh 16 fun _ => 0 } [.chunk ⟨[1, 65], by decide⟩, .round],
      ∃ rounds y, exec step x (.chunk ⟨[1, 66], by decide⟩ :: List.replicate rounds .round) =
          some y ∧
        y.rest = [] ∧ y.client = (onDataReceive true x.client ⟨[1, 66], by decide⟩ {}).1 := by
  have hrun : ∃ x ∈ exec step { client := fresh 16 fun _ => 0 }
      [.chunk ⟨[1, 65], by decide⟩, .round], x.rest = [] := by decide +kernel
  obtain ⟨x, hx, hrest⟩ := hrun
  exact ⟨x, hx, exec_onDataReceive hx hrest _⟩

/-- In a run of whole calls, kept messages stay as they were delivered exactly when every later
payload byte of the stream is the one that they have at its place. Chunks that are kept from a TCP
client stay as they were in every run. -/
theorem kept_messages_intact_iff
    (hrun : exec step { client := fresh maxMessageSize memory } run = some x) (hdone : x.rest = [])
    (hlength : (stream run).length < 2 ^ 64 - 1) (keep : Nat → Bool) (reads : List ReaderEvent) :
    (Throughout step (Intact keep) { client := fresh maxMessageSize memory } run ↔
        Along (Phase.hear maxMessageSize.toNat) (Phase.Agrees maxMessageSize.toNat keep)
          (.size 0 0, []) (stream run)) ∧
      Throughout StreamReader.step StreamReader.Intact {} reads := by
  refine ⟨?_, StreamReader.intact_throughout reads⟩
  refine throughout_intact_iff (tracks_fresh maxMessageSize memory) rfl ?_ ?_ hrun hdone
  · intro message hmessage
    cases hmessage
  · simpa [Phase.dropped] using hlength

def oneAfterAnother (second : DataChunk) : List Event :=
  [.chunk ⟨[1, 65], by decide⟩, .round, .chunk second, .round]

/-- The kept message reads as the second one. -/
theorem kept_message_overwritten :
    ∃ x ∈ exec step { client := fresh 16 fun _ => 0 } (oneAfterAnother ⟨[1, 66], by decide⟩),
      x.messages = [[65], [66]] ∧ content x.client.buffer 1 = [66] := by
  decide +kernel

/-- A later message that begins as the kept one leaves it as it is. -/
theorem kept_messages_intact_iff_same :
    Throughout step (Intact fun i => i = 0) { client := fresh 16 fun _ => 0 }
      (oneAfterAnother ⟨[2, 65, 66], by decide⟩) := by
  have hrun : ∃ x ∈ exec step { client := fresh 16 fun _ => 0 }
      (oneAfterAnother ⟨[2, 65, 66], by decide⟩), x.rest = [] := by decide +kernel
  obtain ⟨x, hx, hdone⟩ := hrun
  refine (kept_messages_intact_iff hx hdone (by decide +kernel) _ []).1.mpr ?_
  decide +kernel

end Keeper

end TarmIo.Net
