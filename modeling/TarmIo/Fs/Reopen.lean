import TarmIo.Fs.FileSteps

/-!
# Reading again after a reopen

`m_read_in_progress` says whether a sequential read is in flight, as long as `on_read` always finds
the file open. When the file was closed before its read completes, `on_read` returns before it
clears the flag, and no later `read` on the object makes a request.
-/

namespace TarmIo.Fs

open Foundation

namespace File

variable {s : File} {request : ReadRequest} {s' : File}

def sequentialReads (s : File) : List ReadRequest :=
  s.reads.filter fun request => request.kind.isSequential

def Flagged (s : File) : Prop := s.sequentialReads.length = s.readInProgress.toNat

/-- With no sequential read in flight the flag is down, and a `read` of an open file with a free
buffer makes a request. -/
def ReadsAgain (s : File) : Prop :=
  s.sequentialReads = [] → s.readInProgress = false ∧
    ∀ descriptor readCallback endReadCallback, s.fileHandle = some descriptor →
      s.state ≠ .closing → s.freeBuffer ≠ none →
      ∃ i, (s.read readCallback endReadCallback none).reads =
        s.reads ++ [⟨s.requests, .sequential i, descriptor, readCallback⟩]

def CompletesOpen (s : File) : Event → Prop
  | .loop (.readDone id _) _ =>
      (s.readRequest id).any (fun request => request.kind.isSequential) = true → s.isOpen = true
  | _ => True

instance (s : File) (e : Event) : Decidable (CompletesOpen s e) := by
  rcases e with _ | _ | ⟨_ | _ | _ | _, _⟩ <;> unfold CompletesOpen <;> infer_instance

theorem flagged_of_reading (h : s'.reading = s.reading) (hs : Flagged s) : Flagged s' := by
  have hreads : s'.reads = s.reads := congrArg Reading.reads h
  have hflag : s'.readInProgress = s.readInProgress := congrArg Reading.readInProgress h
  rwa [Flagged, sequentialReads, hreads, hflag]

theorem keptByReads_flagged : KeptByReads Flagged where
  dropBuf _ _ h := h
  freeBuf _ _ h := h
  into s i descriptor refusal h hcan := by
    cases refusal with
    | none =>
        have hnone : s.sequentialReads.length = 0 := by
          rw [h, hcan.notInProgress]
          rfl
        change (List.filter _ (s.reads ++ [_])).length = 1
        rw [List.filter_append, List.length_append]
        exact congrArg (· + 1) hnone
    | some error =>
        simp only [scheduleReadInto, refuseRead]
        split <;> exact h

theorem not_readsAgain (hnone : s.sequentialReads = []) (hup : s.readInProgress = true) :
    ¬ ReadsAgain s := by
  intro h
  cases hup.symm.trans (h hnone).1

theorem reportRead_reads (s : File) (chunk : Option Chunk) (error : Error)
    (request : ReadRequest) :
    (s.reportRead chunk error request).reads = s.reads ∧
      (s.reportRead chunk error request).readInProgress = s.readInProgress := by
  unfold File.reportRead
  split <;> exact ⟨rfl, rfl⟩

theorem Flagged.reportRead (h : Flagged s) (chunk : Option Chunk) (error : Error)
    (request : ReadRequest) : Flagged (s.reportRead chunk error request) := by
  obtain ⟨hreads, hflag⟩ := reportRead_reads s chunk error request
  rwa [Flagged, sequentialReads, hreads, hflag]

theorem Flagged.onReadBlock (h : Flagged s) (request : ReadRequest) (offset : Nat)
    (outcome : ReadOutcome) : Flagged (s.onReadBlock request offset outcome) := by
  unfold File.onReadBlock
  split
  · exact h.reportRead ..
  · split
    · exact h.reportRead ..
    · exact h
    · exact h.reportRead ..

/-- On an open file `on_read` lowers the flag first. -/
theorem flagged_onRead (hopen : s.isOpen = true) (hnone : s.sequentialReads = [])
    (request : ReadRequest) (i : Nat) (span : Span) (outcome : ReadOutcome)
    (refusal : Option Failure) : Flagged (s.onRead request i span outcome refusal) := by
  have hlow : Flagged { s with readInProgress := false } := by
    simp only [sequentialReads] at hnone
    simp [Flagged, sequentialReads, hnone]
  unfold File.onRead
  rw [if_neg (by simp [hopen])]
  cases outcome with
  | failed error =>
      refine Flagged.reportRead ?_ ..
      exact keptByReads_flagged.resetBuf (s := { s with readInProgress := false, doneRead := true })
        hlow i refusal
  | endOfFile =>
      dsimp only
      split
      · exact keptByReads_flagged.endWithReset (s :=
          { s with readInProgress := false, doneRead := true }) (fun _ h => h) hlow i refusal
      · exact hlow
  | data size =>
      dsimp only
      split
      · exact keptByReads_flagged.continueReading (fun _ h => h) (fun _ _ h => h) hlow i refusal
      · exact hlow

theorem sequentialReads_takeRead (s : File) (request : ReadRequest) (outcome : ReadOutcome) :
    (s.takeRead request outcome).sequentialReads = s.sequentialReads.erase request :=
  List.erase_filter.symm

theorem Flagged.takeRead_block (h : Flagged s) (hkind : request.kind.isSequential = false)
    (outcome : ReadOutcome) : Flagged (s.takeRead request outcome) := by
  rw [Flagged, sequentialReads_takeRead, List.erase_of_not_mem]
  · exact h
  · simp [sequentialReads, hkind]

/-- A sequential read that is in flight is the only one, and the flag is up. -/
theorem Flagged.of_mem (h : Flagged s) (hmem : request ∈ s.reads)
    (hkind : request.kind.isSequential = true) :
    s.sequentialReads = [request] ∧ s.readInProgress = true := by
  have hin : request ∈ s.sequentialReads := List.mem_filter.mpr ⟨hmem, hkind⟩
  have hle : s.readInProgress.toNat ≤ 1 := Bool.toNat_le _
  have hpos := List.length_pos_of_mem hin
  rw [Flagged] at h
  obtain ⟨only, honly⟩ := List.length_eq_one_iff.mp (by omega : s.sequentialReads.length = 1)
  have hflag : s.readInProgress.toNat = 1 := by omega
  rw [honly] at hin ⊢
  rw [List.mem_singleton.mp hin]
  exact ⟨rfl, by simpa using hflag⟩

theorem Flagged.finishRead (h : Flagged s) (hmem : request ∈ s.reads)
    (hopen : request.kind.isSequential = true → s.isOpen = true) (outcome : ReadOutcome)
    (refusal : Option Failure) : Flagged (s.finishRead request outcome refusal) := by
  unfold File.finishRead
  split
  next offset count hkind =>
    exact (h.takeRead_block (by rw [hkind]; rfl) outcome).onReadBlock ..
  next i hkind =>
    have hseq : request.kind.isSequential = true := by
      rw [hkind]
      rfl
    have hnone : (s.takeRead request outcome).sequentialReads = [] := by
      rw [sequentialReads_takeRead, (h.of_mem hmem hseq).1, List.erase_cons_head]
    exact flagged_onRead (s := (s.takeRead request outcome).landRead request i outcome)
      (hopen hseq) hnone ..

/-- No read is made for a closed file. -/
theorem keptByReads_closed (reads : List ReadRequest) (flag : Bool) :
    KeptByReads fun s => s.fileHandle = none ∧ s.reads = reads ∧ s.readInProgress = flag where
  dropBuf _ _ h := h
  freeBuf _ _ h := h
  into s i descriptor refusal h hcan := by
    cases h.1.symm.trans hcan.isOpen

section

variable (h : Flagged s)
include h

variable {refusal : Option Failure} {e : Event}

/-- On a closed file `on_read` leaves the flag up. -/
theorem not_readsAgain_finishRead (hmem : request ∈ s.reads)
    (hseq : request.kind.isSequential = true) (hclosed : s.fileHandle = none)
    (outcome : ReadOutcome) (refusal : Option Failure) :
    ¬ ReadsAgain (s.finishRead request outcome refusal) := by
  obtain ⟨honly, hflag⟩ := h.of_mem hmem hseq
  intro hagain
  unfold File.finishRead at hagain
  split at hagain
  next offset count hkind =>
    rw [hkind] at hseq
    cases hseq
  next i hkind =>
    obtain ⟨hnone, hreads, hup⟩ := (keptByReads_closed (s.reads.erase request) true).resetBuf (s :=
      (s.takeRead request outcome).landRead request i outcome) ⟨hclosed, rfl, hflag⟩ i refusal
    rw [File.onRead, if_pos (by exact congrArg (!Option.isSome ·) hclosed)] at hagain
    refine not_readsAgain ?_ ?_ hagain
    · rw [sequentialReads, (reportRead_reads ..).1, hreads, ← List.erase_filter]
      change s.sequentialReads.erase request = []
      rw [honly, List.erase_cons_head]
    · rw [(reportRead_reads ..).2, hup]

theorem Flagged.resume (refusal : Option Failure) (frame : Frame) :
    Flagged (s.resume refusal frame) := by
  cases frame with
  | last => exact h
  | opened => exact h
  | openFailed => exact h
  | closed => exact flagged_of_reading (reading_afterClose s) h
  | delivered i size =>
      exact keptByReads_flagged.continueReading (s :=
        { s with currentOffset := s.currentOffset + size }) (fun _ h => h) (fun _ _ h => h) h i
        refusal
  | ended i => exact keptByReads_flagged.endWithReset (fun _ h => h) h i refusal
  | refused i => exact keptByReads_flagged.endWithReset (fun _ h => h) h i refusal

theorem Flagged.read (readCallback endReadCallback : Option Nat) (refusal : Option Failure) :
    Flagged (s.read readCallback endReadCallback refusal) := by
  unfold File.read
  split
  · split <;> exact h
  · exact keptByReads_flagged.scheduleRead (s :=
      { s with
        readCallback := readCallback
        endReadCallback := endReadCallback
        doneRead := false
        registeredIn := s.opens
        readOwner := readCallback }) h refusal

theorem Flagged.readBlock (offset count : Nat) (readCallback : Option Nat)
    (refusal : Option Failure) : Flagged (s.readBlock offset count readCallback refusal) := by
  unfold File.readBlock
  split
  · split <;> exact h
  · dsimp only
    split
    · change (List.filter _ (s.reads ++ [_])).length = s.readInProgress.toNat
      rw [List.filter_append, List.length_append]
      exact h
    · split <;> exact h

theorem Flagged.userCall {call : UserCall} (hcall : s.userCall refusal call = some s') :
    Flagged s' := by
  cases call with
  | openFile callback =>
      cases hcall
      exact flagged_of_reading (reading_openFile ..) h
  | close callback =>
      cases hcall
      exact flagged_of_reading (reading_close ..) h
  | read readCallback endReadCallback =>
      cases hcall
      exact h.read ..
  | readBlock offset count readCallback =>
      cases hcall
      exact h.readBlock ..
  | keep =>
      obtain ⟨i, size, span, -, -, rfl⟩ := userCall_keep_eq_some.mp hcall
      exact h
  | release index =>
      obtain ⟨held, -, rfl⟩ := userCall_release_eq_some.mp hcall
      exact keptByReads_flagged.release (fun _ _ h => h) h index held.buffer refusal

theorem Flagged.turnover {turn : Turnover} (hgood : CompletesOpen s (.loop turn refusal))
    (hturn : s.turnover refusal turn = some s') : Flagged s' := by
  cases turn with
  | scheduled =>
      obtain ⟨job, rest, -, rfl⟩ := turnover_scheduled_eq_some.mp hturn
      exact flagged_of_reading (reading_runJob ..) h
  | opened id error =>
      obtain ⟨request, -, rfl⟩ := turnover_opened_eq_some.mp hturn
      split
      · exact flagged_of_reading (reading_onOpen ..) h
      · exact h
  | closed callback error =>
      obtain ⟨-, rfl⟩ := turnover_closed_eq_some.mp hturn
      exact flagged_of_reading (reading_reportClose ..) h
  | readDone id outcome =>
      obtain ⟨request, hfind, -, rfl⟩ := turnover_readDone_eq_some.mp hturn
      refine h.finishRead (mem_of_readRequest hfind) ?_ outcome refusal
      simpa [CompletesOpen, hfind] using hgood

/-- The flag is right after each step in which no sequential read completes on a closed file. -/
theorem Flagged.step (hgood : CompletesOpen s e) (hstep : s.step e = some s') : Flagged s' := by
  cases e with
  | call call refusal => exact h.userCall hstep
  | leave refusal =>
      obtain ⟨frame, -, rfl⟩ := step_leave_eq_some.mp hstep
      exact Flagged.resume (s := { s with running := none }) h ..
  | loop turn refusal => exact h.turnover hgood (step_loop_eq_some.mp hstep).2

theorem Flagged.readsAgain : ReadsAgain s := by
  intro hnone
  have hflag : s.readInProgress = false := by
    rw [Flagged, hnone] at h
    simpa using h.symm
  refine ⟨hflag, ?_⟩
  intro descriptor readCallback endReadCallback hopen hclosing hfree
  obtain ⟨i, hi⟩ := Option.ne_none_iff_exists'.mp hfree
  refine ⟨i, ?_⟩
  rw [freeBuffer] at hi
  simp [File.read, isOpen, hopen, scheduleRead, hclosing, hflag, freeBuffer, hi, scheduleReadInto,
    submitRead, takeBuffer, onBuffer]

/-- A step in which a sequential read completes on a closed file leaves the flag up with nothing in
flight. -/
theorem Flagged.not_readsAgain_step (hbad : ¬ CompletesOpen s e) (hstep : s.step e = some s') :
    ¬ ReadsAgain s' := by
  cases e with
  | call call refusal => exact absurd trivial hbad
  | leave refusal => exact absurd trivial hbad
  | loop turn refusal =>
      cases turn with
      | scheduled => exact absurd trivial hbad
      | opened id error => exact absurd trivial hbad
      | closed callback error => exact absurd trivial hbad
      | readDone id outcome =>
          obtain ⟨request, hfind, -, rfl⟩ :=
            turnover_readDone_eq_some.mp (step_loop_eq_some.mp hstep).2
          have hclosed : request.kind.isSequential = true ∧ s.fileHandle = none := by
            simpa [CompletesOpen, hfind, isOpen] using hbad
          exact not_readsAgain_finishRead h (mem_of_readRequest hfind) hclosed.1 hclosed.2 outcome
            refusal

end

/-! ## Runs -/

theorem flagged_of_completesOpen {run : List Event} {s : File} (h : exec step {} run = some s)
    (hgood : Along step CompletesOpen {} run) : Flagged s := by
  have hall : Throughout step Flagged {} run :=
    throughout_of_along (fun _ (hs : Flagged _) => hs)
      (fun _ _ _ hs hgood hstep => hs.step hgood hstep) rfl hgood
  exact hall.last h

/-- In every state of a run the flag is down when no sequential read is in flight, and a `read` of
an open file makes a request, exactly when sequential reads complete only on an open file. -/
theorem reads_again_iff {run : List Event} {s : File} (h : exec step {} run = some s) :
    Throughout step ReadsAgain {} run ↔ Along step CompletesOpen {} run :=
  throughout_iff_along (fun _ (hs : Flagged _) => hs.readsAgain)
    (fun _ _ _ hs hgood hstep => hs.step hgood hstep)
    (fun _ _ _ hs hbad hstep => hs.not_readsAgain_step hbad hstep) rfl h

def readThenClose : List Event :=
  [.call (.openFile (some 0)) none, .loop (.opened 0 {}) none, .call (.read (some 1) none) none,
    .leave none, .loop (.readDone 1 .endOfFile) none, .call (.close none) none,
    .loop (.closed (.user none) {}) none]

theorem reads_again_iff_readThenClose :
    ∃ s ∈ exec step {} readThenClose, s.state = .closed ∧
      Throughout step ReadsAgain {} readThenClose := by
  have h : ∃ s ∈ exec step {} readThenClose, s.state = .closed := by decide +kernel
  obtain ⟨s, hs, hclosed⟩ := h
  exact ⟨s, hs, hclosed, (reads_again_iff hs).mpr (by decide +kernel)⟩

/-- The file is closed while it is read, the read completes after that, and the file is opened
again. -/
def closeWhileReading : List Event :=
  [.call (.openFile (some 0)) none, .loop (.opened 0 {}) none, .call (.read (some 1) none) none,
    .call (.close none) none, .leave none, .loop (.closed (.user none) {}) none,
    .loop (.readDone 1 (.data 5)) none, .leave none, .call (.openFile (some 0)) none,
    .loop (.opened 2 {}) none, .leave none]

/-- After this a `read` of the open file makes no request. -/
theorem reopened_file_unreadable :
    ∃ s ∈ exec step {} closeWhileReading, s.state = .opened ∧ s.fileHandle = some 2 ∧
      s.reads = [] ∧ s.freeBuffer = some 0 ∧ s.readInProgress = true ∧
      (s.read (some 1) none none).reads = [] := by
  decide +kernel

end File

end TarmIo.Fs
