import TarmIo.Fs.FileLifecycle

/-!
# Where the bytes of a chunk come from

A read callback gets bytes of the file that was open when it was registered, at the offset that the
chunk states, as long as no read is in flight when the next open succeeds, a chunk that is kept
over a reopen is not dropped before the next `read`, and a sequential read has a callback. `on_read`
and `on_read_block` do not know the open that their request belongs to, and the deleter of a buffer
reads on with whatever file is open.
-/

namespace TarmIo.Fs

open Foundation

namespace File

/-- The chunk has the bytes of the file of the open after which the callback was registered, from
the offset that it states. -/
def Delivery.Right (d : Delivery) : Prop :=
  d.chunk.span.descriptor = d.registeredIn ∧ d.chunk.span.position = d.chunk.offset

instance (d : Delivery) : Decidable d.Right :=
  inferInstanceAs (Decidable (_ ∧ _))

/-- No read is in flight when an open succeeds, the data of a sequential read finds a read callback,
and a chunk is dropped on an open file only when the read callback is of this file or reading has
ended. -/
def KeepsApart (s : File) : Event → Prop
  | .loop (.opened _ error) _ => error.isError = false → s.reads = []
  | .loop (.readDone id (.data _)) _ =>
      (s.readRequest id).any (fun request => request.kind.isSequential) = true →
        s.readCallback ≠ none
  | .call (.release _) _ => s.isOpen = true → s.doneRead = false → s.registeredIn = s.opens
  | _ => True

instance (s : File) (e : Event) : Decidable (KeepsApart s e) := by
  unfold KeepsApart
  split <;> infer_instance

def Frame.isReading : Frame → Bool
  | .delivered .. | .ended _ | .refused _ => true
  | .last | .opened | .openFailed | .closed => false

/-- What `on_read` adds to the offset after the callback. -/
def advance (s : File) : Nat :=
  match s.running with
  | some (.delivered _ size) => size
  | _ => 0

/-- The reads in flight and the read callback are of the open file, and all chunks were right. -/
structure Sourced (opens : Nat) (r : Reading) : Prop where
  reads : ∀ request ∈ r.reads, request.descriptor = opens ∧ r.registeredIn = opens
  fresh : ∀ descriptor, opens < descriptor → r.position descriptor = 0
  chunks : ∀ d ∈ r.deliveries, d.Right

structure Apart (s : File) : Prop where
  orderly : Orderly s
  sourced : Sourced s.opens s.reading
  inPlace : ∀ descriptor ∈ s.fileHandle, s.currentOffset + s.advance = s.position descriptor
  frames : ∀ frame ∈ s.running, frame.isReading = true → s.registeredIn = s.opens

/-! ## Opening and closing -/

variable {s s' : File}

/-- A step that reads nothing: the file stays as it is, or is not open. -/
structure Aside (s s' : File) : Prop where
  reading : s'.reading = s.reading
  opens : s'.opens = s.opens
  place : s'.fileHandle = none ∨
    (s'.fileHandle = s.fileHandle ∧ s'.currentOffset = s.currentOffset)
  advance : s'.advance = s.advance
  frames : ∀ frame ∈ s'.running, frame.isReading = true → s.running = some frame

theorem Apart.of_aside (h : Apart s) (ho : Orderly s') (ha : Aside s s') : Apart s' := by
  have hregistered : s'.registeredIn = s.registeredIn := congrArg Reading.registeredIn ha.reading
  have hposition : s'.position = s.position := congrArg Reading.position ha.reading
  refine ⟨ho, ?_, ?_, ?_⟩
  · rw [ha.reading, ha.opens]
    exact h.sourced
  · intro descriptor hd
    rcases ha.place with hnone | ⟨hsame, hoffset⟩
    · rw [hnone] at hd
      cases hd
    · rw [hoffset, ha.advance, hposition]
      exact h.inPlace descriptor (hsame ▸ hd)
  · intro frame hr hreading
    rw [hregistered, ha.opens]
    exact h.frames frame (ha.frames frame hr hreading) hreading

namespace Aside

theorem of_view {s s' : File} (reading : s'.reading = s.reading) (opens : s'.opens = s.opens)
    (handle : s'.fileHandle = none ∨ s'.fileHandle = s.fileHandle)
    (offset : s'.currentOffset = s.currentOffset) (running : s'.running = s.running) :
    Aside s s' where
  reading := reading
  opens := opens
  place := handle.imp_right fun h => ⟨h, offset⟩
  advance := by simp only [File.advance, running]
  frames frame hr _ := running ▸ hr

theorem runCloseCallback (s : File) (callback : CloseCallback) (error : Error) :
    Aside s (s.runCloseCallback callback error).1 := by
  have hreading := reading_runCloseCallback s callback error
  obtain ⟨calls, scheduled, heq⟩ := runCloseCallback_eq s callback error
  rw [heq] at hreading ⊢
  exact of_view hreading rfl (.inr rfl) rfl rfl

theorem close (s : File) (callback : CloseCallback) (refusal : Option Failure) :
    Aside s (s.close callback refusal) := by
  unfold File.close
  split
  · split <;> exact of_view rfl rfl (.inr rfl) rfl rfl
  · split
    · exact runCloseCallback ..
    · cases refusal with
      | none => exact of_view rfl rfl (.inr rfl) rfl rfl
      | some error =>
          dsimp only
          split <;> exact of_view rfl rfl (.inl rfl) rfl rfl

theorem openFile (h : Orderly s) (callback : Option Nat) (refusal : Option Failure) :
    Aside s (s.openFile callback refusal) := by
  refine openFile_cases s callback refusal (fun _ => close ..) (fun _ => ?_) fun hstate => ?_
  · exact of_view rfl rfl (.inr rfl) rfl rfl
  · exact ⟨rfl, rfl, .inl (h.unopened hstate), rfl, fun _ hr _ => hr⟩

theorem afterClose (s : File) : Aside s s.afterClose := by
  unfold File.afterClose finishClose
  split
  · split <;> exact of_view rfl rfl (.inr rfl) rfl rfl
  · exact of_view rfl rfl (.inr rfl) rfl rfl

theorem trans {s t u : File} (h : Aside s t) (h' : Aside t u) : Aside s u where
  reading := h'.reading.trans h.reading
  opens := h'.opens.trans h.opens
  place := by
    rcases h'.place with hnone | ⟨hsame, hoffset⟩
    · exact .inl hnone
    · rw [hsame, hoffset]
      exact h.place
  advance := h'.advance.trans h.advance
  frames frame hr hreading := h.frames frame (h'.frames frame hr hreading) hreading

theorem enter (hrun : s.running = none) {frame : Frame} (hframe : frame.isReading = false) :
    Aside s { s with running := some frame } where
  reading := rfl
  opens := rfl
  place := .inr ⟨rfl, rfl⟩
  advance := by
    cases frame with
    | delivered i size => cases hframe
    | last | opened | openFailed | closed | ended _ | refused _ => simp [File.advance, hrun]
  frames frame' hr hreading := by
    cases hr
    rw [hframe] at hreading
    cases hreading

theorem reportClose (hrun : s.running = none) (callback : CloseCallback) (error : Error) :
    Aside s (s.reportClose callback error) := by
  have hcall := runCloseCallback s callback error
  have hrun' := (running_runCloseCallback s callback error).trans hrun
  unfold File.reportClose
  split
  next heq =>
    rw [heq] at hcall hrun'
    exact hcall.trans (enter hrun' rfl)
  next heq =>
    rw [heq] at hcall
    exact hcall.trans (afterClose _)

theorem runJob (h : Orderly s) (hrun : s.running = none) (refusal : Option Failure) (job : Job) :
    Aside s (s.runJob refusal job) := by
  cases job with
  | openFile callback => exact openFile h callback refusal
  | closeNotOpen callback =>
      have hcall := runCloseCallback s callback (.ofCode .fileNotOpen)
      have hrun' := (running_runCloseCallback s callback (.ofCode .fileNotOpen)).trans hrun
      dsimp only [File.runJob]
      split
      next heq =>
        rw [heq] at hcall hrun'
        exact hcall.trans (enter hrun' rfl)
      next heq =>
        rw [heq] at hcall
        exact hcall
  | closeRefused callback error => exact reportClose hrun callback error
  | blockRefused request error =>
      dsimp only [File.runJob]
      split
      · exact of_view rfl rfl (.inr rfl) rfl rfl
      next callback _ =>
        have hlog : Aside s (s.answerRefused callback request error) :=
          of_view (reading_log rfl s) rfl (.inr rfl) rfl rfl
        have hrun' : (s.answerRefused callback request error).running = none := hrun
        exact hlog.trans (enter hrun' rfl)

end Aside

/-- An open succeeds: the new descriptor is at its beginning. -/
theorem Apart.onOpen (h : Apart s) (hrun : s.running = none) {request : OpenRequest}
    (hmem : request ∈ s.openRequests) {error : Error}
    (hreads : error.isError = false → s.reads = []) :
    Apart ({ s with openRequests := s.openRequests.erase request }.onOpen error) := by
  obtain ⟨-, -, -, hhandle, hoffset⟩ := h.orderly.opening request hmem
  have horderly := h.orderly.onOpen hrun hmem error
  cases herror : error.isError with
  | true =>
      refine h.of_aside horderly ⟨reading_onOpen .., ?_, ?_, ?_, ?_⟩
      all_goals
        simp only [File.onOpen, if_pos herror]
        split
      all_goals
        simp [afterOpenFailed, leaveOpen, log, hhandle, advance, hrun, Frame.isReading]
  | false =>
      have hreading := reading_onOpen { s with openRequests := s.openRequests.erase request } error
      obtain ⟨hopens, hnew, hsame, hframe⟩ :=
        onOpen_ok { s with openRequests := s.openRequests.erase request } herror
      generalize { s with openRequests := s.openRequests.erase request }.onOpen error = t at *
      have hposition : t.position = s.position := congrArg Reading.position hreading
      refine ⟨horderly, ?_, ?_, ?_⟩
      · rw [hreading, hopens]
        refine ⟨?_, ?_, h.sourced.chunks⟩
        · simp [reading, hreads herror]
        · exact fun descriptor hlt => h.sourced.fresh descriptor (Nat.lt_of_succ_lt hlt)
      · intro descriptor hd
        cases hnew.symm.trans hd
        have hfresh : s.position (s.opens + 1) = 0 := h.sourced.fresh _ (Nat.lt_succ_self _)
        rw [hposition, hfresh, hsame, hoffset]
        rcases hframe with hframe | hframe <;> simp [advance, hframe, hrun]
      · rcases hframe with hframe | hframe <;> simp [hframe, hrun, Frame.isReading]

/-! ## Reads -/

variable {l : Lifecycle}

/-- What holds while reads of the open file are started: the read callback is of this file. -/
structure ReadsOn (l : Lifecycle) (position : Nat → Nat) (advance : Nat) (s : File) : Prop where
  sourced : Sourced s.opens s.reading
  registered : s.registeredIn = s.opens
  lifecycle : s.lifecycle = l
  position : s.position = position
  advance : s.advance = advance

theorem ReadsOn.apart (h : ReadsOn l s.position s.advance s') (hl : l = s.lifecycle)
    (ho : Orderly s')
    (hplace : ∀ descriptor ∈ s.fileHandle, s.currentOffset + s.advance = s.position descriptor) :
    Apart s' where
  orderly := ho
  sourced := h.sourced
  inPlace := by
    have hhandle : s'.fileHandle = s.fileHandle :=
      congrArg Lifecycle.fileHandle (h.lifecycle.trans hl)
    have hoffset : s'.currentOffset = s.currentOffset :=
      congrArg Lifecycle.currentOffset (h.lifecycle.trans hl)
    rw [hhandle, hoffset, h.position, h.advance]
    exact hplace
  frames _ _ _ := h.registered

theorem keptByReads_readsOn (hopens : ∀ descriptor ∈ l.fileHandle, descriptor = l.opens)
    (position : Nat → Nat) (advance : Nat) : KeptByReads (ReadsOn l position advance) where
  dropBuf _ _ h := ⟨h.sourced, h.registered, h.lifecycle, h.position, h.advance⟩
  freeBuf _ _ h := ⟨h.sourced, h.registered, h.lifecycle, h.position, h.advance⟩
  into s i descriptor refusal h hcan := by
    have hlife := (scheduleReadInto_lifecycle s i descriptor refusal).trans h.lifecycle
    have hdescriptor : descriptor = s.opens := by
      have hhandle : s.fileHandle = l.fileHandle := congrArg Lifecycle.fileHandle h.lifecycle
      have hopens' : s.opens = l.opens := congrArg Lifecycle.opens h.lifecycle
      rw [hopens']
      exact hopens descriptor (hhandle ▸ hcan.isOpen)
    cases refusal with
    | none =>
        refine ⟨⟨?_, h.sourced.fresh, h.sourced.chunks⟩, h.registered, hlife, h.position, h.advance⟩
        intro request hmem
        rcases List.mem_append.mp hmem with hmem | hmem
        · exact h.sourced.reads request hmem
        · rw [List.mem_singleton.mp hmem]
          exact ⟨hdescriptor, h.registered⟩
    | some error =>
        obtain ⟨calls, nullCalls, heq, hcalls⟩ := refuseRead_eq (s.takeBuffer i) error
        simp only [scheduleReadInto, heq] at hlife ⊢
        refine ⟨⟨h.sourced.reads, h.sourced.fresh, ?_⟩, h.registered, hlife, h.position, h.advance⟩
        rw [reading, deliveries, hcalls]
        exact h.sourced.chunks

section

variable (h : Apart s) (hregistered : s.registeredIn = s.opens)
include h hregistered

theorem Apart.readsOn : ReadsOn s.lifecycle s.position s.advance s :=
  ⟨h.sourced, hregistered, rfl, rfl, rfl⟩

theorem Apart.endWithReset (hadvance : s.advance = 0) (i : Nat) (refusal : Option Failure) :
    Apart (s.endWithReset i refusal) := by
  have hreads := (keptByReads_readsOn (l := s.lifecycle) h.orderly.handle s.position
    s.advance).endWithReset (fun _ h => ⟨h.sourced, h.registered, h.lifecycle, h.position,
      hadvance.symm⟩) (h.readsOn hregistered) i refusal
  exact hreads.apart rfl (h.orderly.endWithReset i refusal) h.inPlace

theorem Apart.continueReading (hadvance : s.advance = 0) (i : Nat) (refusal : Option Failure) :
    Apart (s.continueReading i refusal) := by
  have hreads := (keptByReads_readsOn (l := s.lifecycle) h.orderly.handle s.position
    s.advance).continueReading
      (fun _ h => ⟨h.sourced, h.registered, h.lifecycle, h.position, hadvance.symm⟩)
      (fun _ _ h => ⟨h.sourced, h.registered, h.lifecycle, h.position, hadvance.symm⟩)
      (h.readsOn hregistered) i refusal
  exact hreads.apart rfl (h.orderly.continueReading i refusal) h.inPlace

end

/-- A buffer that is freed on a closed file, or when reading has ended, is only marked. -/
theorem release_eq_of_idle (h : s.isOpen = false ∨ s.doneRead = true) (index i : Nat)
    (refusal : Option Failure) :
    ∃ buffers blocking, s.release index i refusal =
      { s with held := s.held.eraseIdx index, buffers := buffers, blocking := blocking } := by
  unfold File.release File.onBufferFreed
  dsimp only
  split
  · exact ⟨_, _, rfl⟩
  · split
    · exact ⟨_, _, rfl⟩
    next hdone =>
      have hclosed : s.fileHandle = none := by
        simpa [isOpen] using h.resolve_right hdone
      exact ⟨_, _, congrArg Prod.fst (scheduleRead_closed
        (s := { s with held := s.held.eraseIdx index }.freeBuf i) hclosed refusal)⟩

theorem Apart.release (h : Apart s) (index i : Nat) (refusal : Option Failure)
    (hgood : s.isOpen = true → s.doneRead = false → s.registeredIn = s.opens) :
    Apart (s.release index i refusal) := by
  have horderly := h.orderly.release index i refusal
  by_cases hidle : s.isOpen = false ∨ s.doneRead = true
  · obtain ⟨buffers, blocking, heq⟩ := release_eq_of_idle hidle index i refusal
    rw [heq] at horderly ⊢
    exact h.of_aside horderly (Aside.of_view rfl rfl (.inr rfl) rfl rfl)
  · have hregistered : s.registeredIn = s.opens := by
      rw [not_or] at hidle
      exact hgood (by simpa using hidle.1) (by simpa using hidle.2)
    have hreads := (keptByReads_readsOn (l := s.lifecycle) h.orderly.handle s.position
      s.advance).release (fun _ _ h => ⟨h.sourced, h.registered, h.lifecycle, h.position,
        h.advance⟩) (h.readsOn hregistered) index i refusal
    exact hreads.apart rfl horderly h.inPlace

theorem Apart.read (h : Apart s) (readCallback endReadCallback : Option Nat)
    (refusal : Option Failure) : Apart (s.read readCallback endReadCallback refusal) := by
  have horderly := h.orderly.read readCallback endReadCallback refusal
  by_cases hopen : s.isOpen = true
  · have hreads := (keptByReads_readsOn (l := s.lifecycle) h.orderly.handle s.position
      s.advance).scheduleRead (s := { s with
        readCallback := readCallback
        endReadCallback := endReadCallback
        doneRead := false
        registeredIn := s.opens
        readOwner := readCallback })
      ⟨⟨fun request hmem => ⟨(h.sourced.reads request hmem).1, rfl⟩, h.sourced.fresh,
        h.sourced.chunks⟩, rfl, rfl, rfl, rfl⟩ refusal
    unfold File.read at horderly ⊢
    rw [if_neg (by simp [hopen])] at horderly ⊢
    exact hreads.apart rfl horderly h.inPlace
  · unfold File.read at horderly ⊢
    rw [if_pos (by simpa using hopen)] at horderly ⊢
    cases readCallback with
    | none => exact h
    | some callback =>
        exact h.of_aside horderly (Aside.of_view (reading_log rfl s) rfl (.inr rfl) rfl rfl)

theorem Apart.readBlock (h : Apart s) (offset count : Nat) (readCallback : Option Nat)
    (refusal : Option Failure) : Apart (s.readBlock offset count readCallback refusal) := by
  have horderly := h.orderly.readBlock offset count readCallback refusal
  cases hhandle : s.fileHandle with
  | none =>
      obtain ⟨calls, heq, hcalls⟩ := readBlock_closed hhandle offset count readCallback refusal
      rw [heq] at horderly ⊢
      refine h.of_aside horderly (Aside.of_view ?_ rfl (.inr rfl) rfl rfl)
      simp only [reading, deliveries, hcalls]
  | some descriptor =>
      obtain ⟨reads, scheduled, heq, hcases⟩ :=
        readBlock_eq hhandle offset count readCallback refusal
      rw [heq] at horderly ⊢
      refine ⟨horderly, ⟨?_, h.sourced.fresh, h.sourced.chunks⟩, h.inPlace, fun _ _ _ => rfl⟩
      have hold : ∀ request ∈ s.reads, request.descriptor = s.opens :=
        fun request hmem => (h.sourced.reads request hmem).1
      have hnew : ∀ request ∈ reads, request.descriptor = s.opens := by
        rcases hcases with ⟨hreads, -⟩ | ⟨hreads, -⟩ | ⟨hreads, -⟩
        · rw [hreads]
          intro request hmem
          rcases List.mem_append.mp hmem with hmem | hmem
          · exact hold request hmem
          · rw [List.mem_singleton.mp hmem]
            exact h.orderly.handle descriptor hhandle
        · rwa [hreads]
        · rwa [hreads]
      exact fun request hmem => ⟨hnew request hmem, rfl⟩

/-! ## Completions -/

variable {request : ReadRequest} {chunk : Option Chunk} {outcome : ReadOutcome}

/-- The log after a read callback: the chunk is right, if there is one. -/
theorem Sourced.callRead (h : Sourced s.opens s.reading) (hregistered : s.registeredIn = s.opens)
    (callback : Nat)
    (hchunk : ∀ c ∈ chunk, c.span.descriptor = s.opens ∧ c.span.position = c.offset) (error : Error)
    (request : Option ReadRequest) :
    Sourced s.opens (s.callRead callback chunk error request).reading := by
  refine ⟨h.reads, h.fresh, ?_⟩
  have hold : ∀ d ∈ s.deliveries, d.Right := h.chunks
  cases chunk with
  | none => simpa [reading, deliveries, File.callRead, log, Call.delivery] using hold
  | some chunk =>
      have hlog : (s.callRead callback (some chunk) error request).deliveries =
          s.deliveries ++ [⟨callback, s.registeredIn, chunk⟩] := by
        simp [deliveries, File.callRead, log, Call.delivery]
      have hright : Delivery.Right ⟨callback, s.registeredIn, chunk⟩ := by
        rw [Delivery.Right, hregistered]
        exact hchunk chunk rfl
      intro d hd
      change d ∈ (s.callRead callback (some chunk) error request).deliveries at hd
      rw [hlog] at hd
      rcases List.mem_append.mp hd with hd | hd
      · exact hold d hd
      · rw [List.mem_singleton.mp hd]
        exact hright

theorem Apart.resetBuf (h : Apart s) (hregistered : s.registeredIn = s.opens) (i : Nat)
    (refusal : Option Failure) :
    Apart (s.resetBuf i refusal).1 ∧
      (s.resetBuf i refusal).1.registeredIn = (s.resetBuf i refusal).1.opens := by
  have hreads := (keptByReads_readsOn (l := s.lifecycle) h.orderly.handle s.position
    s.advance).resetBuf (h.readsOn hregistered) i refusal
  exact ⟨hreads.apart rfl (h.orderly.resetBuf i refusal) h.inPlace, hreads.registered⟩

theorem resetBuf_running (s : File) (i : Nat) (refusal : Option Failure) :
    (s.resetBuf i refusal).1.running = s.running := by
  have hkept : KeptByReads fun t => t.running = s.running :=
    { dropBuf := fun _ _ h => h
      freeBuf := fun _ _ h => h
      into := fun t j descriptor refusal h _ => by
        rw [← h]
        unfold scheduleReadInto refuseRead
        split
        · rfl
        · split <;> rfl }
  exact hkept.resetBuf rfl i refusal

theorem Apart.takeRead (h : Apart s) (request : ReadRequest) (outcome : ReadOutcome) :
    Apart (s.takeRead request outcome) where
  orderly := h.orderly.of_lifecycle rfl fun _ hr _ => hr
  sourced := ⟨fun r hmem => h.sourced.reads r (List.mem_of_mem_erase hmem), h.sourced.fresh,
    h.sourced.chunks⟩
  inPlace := h.inPlace
  frames := h.frames

/-- The position of the open descriptor moves, those of later ones do not. -/
theorem Sourced.landRead (h : Sourced s.opens s.reading) (hrequest : request.descriptor = s.opens)
    (i : Nat) (outcome : ReadOutcome) :
    Sourced s.opens (s.landRead request i outcome).reading where
  reads := h.reads
  fresh descriptor hlt := by
    have hne : descriptor ≠ request.descriptor := by
      rw [hrequest]
      exact Nat.ne_of_gt hlt
    exact (Function.update_of_ne hne _ _).trans (h.fresh descriptor hlt)
  chunks := h.chunks

theorem Apart.landRead (h : Apart s) (hrequest : request.descriptor = s.opens) (i : Nat)
    (hsize : s.fileHandle = none ∨ outcome.size = 0) :
    Apart (s.landRead request i outcome) where
  orderly := h.orderly.of_lifecycle rfl fun _ hr _ => hr
  sourced := h.sourced.landRead hrequest i outcome
  inPlace descriptor hd := by
    rcases hsize with hnone | hzero
    · cases hnone.symm.trans hd
    · have hposition : (s.landRead request i outcome).position = s.position := by
        simp [File.landRead, hzero]
      rw [hposition]
      exact h.inPlace descriptor hd
  frames := h.frames

theorem Apart.lowerFlag (h : Apart s) (doneRead : Bool) :
    Apart { s with readInProgress := false, doneRead := doneRead } :=
  ⟨h.orderly.of_lifecycle rfl fun _ hr _ => hr,
    ⟨h.sourced.reads, h.sourced.fresh, h.sourced.chunks⟩, h.inPlace, h.frames⟩

section

variable (h : Apart s) (hrun : s.running = none) (hregistered : s.registeredIn = s.opens)
include h hrun hregistered

theorem Apart.reportRead
    (hchunk : ∀ c ∈ chunk, c.span.descriptor = s.opens ∧ c.span.position = c.offset) (error : Error)
    (request : ReadRequest) : Apart (s.reportRead chunk error request) := by
  have horderly := h.orderly.reportRead chunk error request
  unfold File.reportRead at horderly ⊢
  cases hcallback : s.readCallback with
  | none => exact h
  | some callback =>
      refine ⟨?_, ?_, ?_, fun _ _ _ => hregistered⟩
      · simpa only [hcallback] using horderly
      · exact h.sourced.callRead hregistered callback hchunk error (some request)
      · intro descriptor hd
        have hplace := h.inPlace descriptor hd
        simpa [advance, hrun, File.callRead, log] using hplace

theorem Apart.onReadBlock (hrequest : request.descriptor = s.opens) (offset : Nat)
    (outcome : ReadOutcome) : Apart (s.onReadBlock request offset outcome) := by
  unfold File.onReadBlock
  split
  · exact h.reportRead hrun hregistered (by simp) ..
  · cases outcome with
    | failed error => exact h.reportRead hrun hregistered (by simp) ..
    | endOfFile => exact h
    | data size =>
        refine h.reportRead hrun hregistered ?_ ..
        intro c hc
        cases hc
        exact ⟨hrequest, rfl⟩

theorem Apart.reset_reportRead (i : Nat) (refusal : Option Failure) (error : Error)
    (request : ReadRequest) : Apart ((s.resetBuf i refusal).1.reportRead none error request) := by
  obtain ⟨hreset, hstill⟩ := h.resetBuf hregistered i refusal
  exact hreset.reportRead ((resetBuf_running s i refusal).trans hrun) hstill (by simp) error request

theorem Apart.callEnd (callback i : Nat) :
    Apart { s.log (.endRead callback) with running := some (.ended i) } where
  orderly := h.orderly.of_lifecycle rfl (by simp [Frame.setsFile])
  sourced := by
    have hlog := reading_log (rfl : (Call.endRead callback).delivery = none) s
    exact hlog.symm ▸ h.sourced
  inPlace descriptor hd := by
    have hplace := h.inPlace descriptor hd
    simpa [advance, log, hrun] using hplace
  frames _ _ _ := hregistered

/-- Data is passed to the read callback: the chunk starts where the last one ended. -/
theorem Apart.deliver (hrequest : request.descriptor = s.opens) {descriptor : Nat}
    (hopen : s.fileHandle = some descriptor) (callback i size : Nat) (doneRead : Bool) :
    Apart
      { ({ s.landRead request i (.data size) with
            readInProgress := false, doneRead := doneRead } : File).callRead callback
          (some { span := s.spanOf request (.data size), offset := s.currentOffset }) {}
          (some request) with
        running := some (.delivered i size) } := by
  have hdescriptor := h.orderly.handle descriptor hopen
  have hplace : s.currentOffset = s.position s.opens := by
    simpa [advance, hrun, hdescriptor] using h.inPlace descriptor hopen
  constructor
  · have hland : Orderly (s.landRead request i (.data size)) :=
      h.orderly.of_lifecycle rfl fun _ hr _ => hr
    exact (hland.deliver (by simp [File.landRead, onBuffer, hopen]) i size).of_lifecycle rfl
      fun _ hr _ => hr
  · refine Sourced.callRead (s := { s.landRead request i (.data size) with
      readInProgress := false, doneRead := doneRead }) ?_ hregistered callback ?_ {} (some request)
    · exact ⟨(h.sourced.landRead hrequest i (.data size)).reads,
        (h.sourced.landRead hrequest i (.data size)).fresh,
        (h.sourced.landRead hrequest i (.data size)).chunks⟩
    · intro c hc
      cases hc
      exact ⟨hrequest, by rw [hplace, ← hrequest]; rfl⟩
  · intro d hd
    cases hopen.symm.trans hd
    simp [File.callRead, log, advance, File.landRead, onBuffer, hdescriptor, hrequest, hplace,
      ReadOutcome.size]
  · exact fun _ _ _ => hregistered

/-- `on_read`, when libuv has written what it read from the position. -/
theorem Apart.onRead (hrequest : request.descriptor = s.opens) (i : Nat) (outcome : ReadOutcome)
    (hgood : ∀ size, outcome = .data size → s.readCallback ≠ none)
    (refusal : Option Failure) :
    Apart ((s.landRead request i outcome).onRead request i (s.spanOf request outcome) outcome
      refusal) := by
  unfold File.onRead
  split
  next hclosed =>
    have hnone : s.fileHandle = none := by
      simpa [isOpen, File.landRead, onBuffer] using hclosed
    exact (h.landRead hrequest i (.inl hnone)).reset_reportRead hrun hregistered ..
  next hopen =>
    cases outcome with
    | failed error =>
        have hland : Apart (s.landRead request i (.failed error)) :=
          h.landRead hrequest i (.inr rfl)
        exact (hland.lowerFlag true).reset_reportRead hrun hregistered ..
    | endOfFile =>
        have hland : Apart (s.landRead request i .endOfFile) := h.landRead hrequest i (.inr rfl)
        have hlow := hland.lowerFlag true
        dsimp only
        split
        · exact hlow.endWithReset hregistered (by simp [advance, File.landRead, onBuffer, hrun]) ..
        · exact hlow.callEnd hrun hregistered ..
    | data size =>
        obtain ⟨callback, hcallback⟩ := Option.ne_none_iff_exists'.mp (hgood size rfl)
        have hhandle : s.fileHandle ≠ none := by
          simpa [isOpen, File.landRead, onBuffer] using hopen
        obtain ⟨descriptor, hdescriptor⟩ := Option.ne_none_iff_exists'.mp hhandle
        dsimp only
        split
        next hnull => cases hcallback.symm.trans hnull
        · exact h.deliver hrun hregistered hrequest hdescriptor _ i size s.doneRead

end

theorem Apart.finishRead {s : File} (h : Apart s) (hrun : s.running = none)
    {request : ReadRequest} (hmem : request ∈ s.reads) {outcome : ReadOutcome}
    (hgood : ∀ size, outcome = .data size → request.kind.isSequential = true →
      s.readCallback ≠ none) (refusal : Option Failure) :
    Apart (s.finishRead request outcome refusal) := by
  obtain ⟨hrequest, hregistered⟩ := h.sourced.reads request hmem
  have htake := h.takeRead request outcome
  unfold File.finishRead
  split
  · exact htake.onReadBlock hrun hregistered hrequest ..
  next i hkind =>
    refine htake.onRead hrun hregistered hrequest i outcome ?_ refusal
    exact fun size hdata => hgood size hdata (by rw [hkind]; rfl)

/-! ## Steps -/

variable {frame : Frame} {refusal : Option Failure}

theorem Apart.leave (h : Apart s) (hrun : s.running = some frame)
    (hframe : ∀ i size, frame ≠ .delivered i size) : Apart { s with running := none } := by
  refine h.of_aside (h.orderly.of_lifecycle rfl (by simp)) ⟨rfl, rfl, .inr ⟨rfl, rfl⟩, ?_, by simp⟩
  cases frame with
  | delivered i size => exact absurd rfl (hframe i size)
  | last | opened | openFailed | closed | ended _ | refused _ => simp [advance, hrun]

theorem Apart.resume (h : Apart s) (hrun : s.running = some frame) (refusal : Option Failure) :
    Apart ({ s with running := none }.resume refusal frame) := by
  have horderly := h.orderly.resume hrun refusal
  cases frame with
  | last => exact h.leave hrun (by simp)
  | opened =>
      exact (h.leave hrun (by simp)).of_aside horderly (Aside.of_view rfl rfl (.inr rfl) rfl rfl)
  | openFailed =>
      exact (h.leave hrun (by simp)).of_aside horderly (Aside.of_view rfl rfl (.inr rfl) rfl rfl)
  | closed => exact (h.leave hrun (by simp)).of_aside horderly (Aside.afterClose _)
  | delivered i size =>
      have hregistered := h.frames _ hrun rfl
      have hplace : ∀ descriptor ∈ s.fileHandle,
          s.currentOffset + size = s.position descriptor := by
        simpa [advance, hrun] using h.inPlace
      have hnext : Apart { s with running := none, currentOffset := s.currentOffset + size } :=
        ⟨h.orderly.moveOn hrun _, h.sourced, hplace, by simp⟩
      exact hnext.continueReading hregistered rfl i refusal
  | ended i =>
      exact (h.leave hrun (by simp)).endWithReset (h.frames _ hrun rfl) rfl i refusal
  | refused i =>
      exact (h.leave hrun (by simp)).endWithReset (h.frames _ hrun rfl) rfl i refusal

theorem Apart.userCall {call : UserCall} (h : Apart s) (hgood : KeepsApart s (.call call refusal))
    (hcall : s.userCall refusal call = some s') : Apart s' := by
  have horderly := h.orderly.userCall hcall
  cases call with
  | openFile callback =>
      cases hcall
      have hpassed : Orderly { s with passed := s.passed ++ callback.toList } :=
        h.orderly.of_lifecycle rfl fun _ hr _ => hr
      refine h.of_aside horderly (Aside.trans ?_ (Aside.openFile hpassed callback refusal))
      exact Aside.of_view rfl rfl (.inr rfl) rfl rfl
  | close callback =>
      cases hcall
      exact h.of_aside horderly (Aside.close ..)
  | read readCallback endReadCallback =>
      cases hcall
      exact h.read ..
  | readBlock offset count readCallback =>
      cases hcall
      have hread := h.readBlock offset count readCallback refusal
      exact { hread with orderly := { hread.orderly with } }
  | keep =>
      obtain ⟨i, size, span, -, -, rfl⟩ := userCall_keep_eq_some.mp hcall
      exact h.of_aside horderly (Aside.of_view rfl rfl (.inr rfl) rfl rfl)
  | release index =>
      obtain ⟨held, -, rfl⟩ := userCall_release_eq_some.mp hcall
      exact h.release index held.buffer refusal hgood

theorem Apart.turnover {turn : Turnover} (h : Apart s) (hgood : KeepsApart s (.loop turn refusal))
    (hrun : s.running = none) (hturn : s.turnover refusal turn = some s') : Apart s' := by
  have horderly := h.orderly.turnover hrun hturn
  cases turn with
  | scheduled =>
      obtain ⟨job, rest, -, rfl⟩ := turnover_scheduled_eq_some.mp hturn
      have hrest : Orderly { s with scheduled := rest } :=
        h.orderly.of_lifecycle rfl fun _ hr _ => hr
      refine h.of_aside horderly (Aside.trans ?_ (Aside.runJob hrest hrun refusal job))
      exact Aside.of_view rfl rfl (.inr rfl) rfl rfl
  | opened id error =>
      obtain ⟨request, hfind, rfl⟩ := turnover_opened_eq_some.mp hturn
      have hmem := List.mem_of_find?_eq_some hfind
      rw [if_pos (h.orderly.opening request hmem).2.1]
      exact h.onOpen hrun hmem hgood
  | closed callback error =>
      obtain ⟨hmem, rfl⟩ := turnover_closed_eq_some.mp hturn
      refine h.of_aside horderly (Aside.trans ?_ (Aside.reportClose (s :=
        { s with
          closeRequests := s.closeRequests.erase callback
          fileHandle := none
          state := .closed }) hrun callback error))
      exact Aside.of_view rfl rfl (.inl rfl) rfl rfl
  | readDone id outcome =>
      obtain ⟨request, hfind, -, rfl⟩ := turnover_readDone_eq_some.mp hturn
      refine h.finishRead hrun (mem_of_readRequest hfind) ?_ refusal
      rintro size rfl hseq
      exact hgood (by simp [hfind, hseq])

/-- The files stay apart in each step that keeps them apart. -/
theorem Apart.step {e : Event} (h : Apart s) (hgood : KeepsApart s e) (hstep : s.step e = some s') :
    Apart s' := by
  cases e with
  | call call refusal => exact h.userCall hgood hstep
  | leave refusal =>
      obtain ⟨frame, hrun, rfl⟩ := step_leave_eq_some.mp hstep
      exact h.resume hrun refusal
  | loop turn refusal =>
      obtain ⟨hrun, hturn⟩ := step_loop_eq_some.mp hstep
      exact h.turnover hgood hrun hturn

/-! ## Runs -/

theorem Apart.initial : Apart {} where
  orderly := Orderly.initial
  sourced := ⟨by simp [reading], fun _ _ => rfl, by simp [reading, deliveries]⟩
  inPlace _ h := by cases h
  frames _ h := by cases h

/-- Every chunk that is passed to a read callback has the bytes of the file that was open when the
callback was registered, from the offset that the chunk states, when the steps of the run keep the
files apart. Sequential offsets count from the beginning of the open file: they are the position of
its descriptor, and a new descriptor is at 0. -/
theorem chunks_of_registered_file {run : List Event} {s : File} (h : exec step {} run = some s)
    (hgood : Along step KeepsApart {} run) :
    (∀ d ∈ s.deliveries, d.Right) ∧
      (∀ descriptor ∈ s.fileHandle, s.currentOffset + s.advance = s.position descriptor) ∧
      ∀ descriptor, s.opens < descriptor → s.position descriptor = 0 := by
  have hall : Throughout step Apart {} run :=
    throughout_of_along (fun _ hs => hs) (fun _ _ _ hs hg hstep => Apart.step hs hg hstep)
      Apart.initial hgood
  have hs := hall.last h
  exact ⟨hs.sourced.chunks, hs.inPlace, hs.sourced.fresh⟩

def readBothFiles : List Event :=
  [.call (.openFile (some 0)) none, .loop (.opened 0 {}) none, .call (.read (some 1) none) none,
    .leave none, .loop (.readDone 1 (.data 5)) none, .leave none,
    .loop (.readDone 2 .endOfFile) none, .call (.openFile (some 0)) none,
    .loop (.closed (.reopen (some 0)) {}) none,
    .loop .scheduled none, .loop (.opened 3 {}) none, .call (.read (some 2) none) none, .leave none,
    .loop (.readDone 4 (.data 7)) none, .leave none]

theorem chunks_of_registered_file_bothFiles :
    ∃ s ∈ exec step {} readBothFiles,
      s.deliveries = [⟨1, 1, ⟨⟨1, 0, 5⟩, 0⟩⟩, ⟨2, 2, ⟨⟨2, 0, 7⟩, 0⟩⟩] ∧
      ∀ d ∈ s.deliveries, d.Right := by
  have h : ∃ s ∈ exec step {} readBothFiles,
      s.deliveries = [⟨1, 1, ⟨⟨1, 0, 5⟩, 0⟩⟩, ⟨2, 2, ⟨⟨2, 0, 7⟩, 0⟩⟩] := by
    decide +kernel
  obtain ⟨s, hs, hchunks⟩ := h
  exact ⟨s, hs, hchunks, (chunks_of_registered_file hs (by decide +kernel)).1⟩

def reopenWhileReading : List Event :=
  [.call (.openFile (some 0)) none, .loop (.opened 0 {}) none, .call (.read (some 1) none) none,
    .call (.openFile (some 0)) none, .leave none, .loop (.closed (.reopen (some 0)) {}) none,
    .loop .scheduled none, .loop (.opened 2 {}) none, .call (.read (some 2) none) none, .leave none,
    .loop (.readDone 1 (.data 5)) none]

/-- A chunk of the first file is kept, and dropped when the second one is open. -/
def dropAfterReopen : List Event :=
  [.call (.openFile (some 0)) none, .loop (.opened 0 {}) none, .call (.read (some 1) none) none,
    .leave none, .loop (.readDone 1 (.data 5)) none, .call .keep none, .leave none,
    .call (.openFile (some 0)) none, .loop (.readDone 2 (.data 5)) none, .leave none,
    .loop (.closed (.reopen (some 0)) {}) none, .loop .scheduled none, .loop (.opened 3 {}) none,
    .leave none, .call (.release 0) none, .loop (.readDone 4 (.data 7)) none]

def readWithoutCallback : List Event :=
  [.call (.openFile (some 0)) none, .loop (.opened 0 {}) none, .call (.read none none) none,
    .leave none, .loop (.readDone 1 (.data 5)) none, .call (.read (some 1) none) none,
    .loop (.readDone 2 (.data 7)) none]

/-- The callback of the second file gets bytes of the first one, that of the first one gets bytes of
the second one, and a chunk states the offset 0 for the bytes from 5 on. -/
theorem chunk_of_other_file :
    (∃ s ∈ exec step {} reopenWhileReading,
      s.deliveries = [⟨2, 2, ⟨⟨1, 0, 5⟩, 0⟩⟩] ∧ ∃ d ∈ s.deliveries, ¬ d.Right) ∧
    (∃ s ∈ exec step {} dropAfterReopen,
      ⟨1, 1, ⟨⟨2, 0, 7⟩, 0⟩⟩ ∈ s.deliveries ∧ ∃ d ∈ s.deliveries, ¬ d.Right) ∧
    ∃ s ∈ exec step {} readWithoutCallback,
      s.deliveries = [⟨1, 1, ⟨⟨1, 5, 7⟩, 0⟩⟩] ∧ ∃ d ∈ s.deliveries, ¬ d.Right := by
  decide +kernel

end File

end TarmIo.Fs
