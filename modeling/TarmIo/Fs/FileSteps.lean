import TarmIo.Fs.File

/-!
# What the operations of a file change

Opening and closing leave the reading part of a file alone, and reading leaves the rest alone. Each
side is a view of the state, and the operations of the other side do not change the view.
`KeptByReads` is the rule for `schedule_read`, which is called from reads, from completions and
from the deleters of buffers.
-/

namespace TarmIo.Fs

namespace File

/-- A chunk that was passed to a read callback, with the open after which that was registered. -/
structure Delivery where
  callback : Nat
  registeredIn : Nat
  chunk : Chunk
deriving DecidableEq

def Call.delivery : Call → Option Delivery
  | .read callback registeredIn (some chunk) _ _ => some ⟨callback, registeredIn, chunk⟩
  | .read _ _ none _ _ | .opened .. | .closed .. | .endRead _ => none

def deliveries (s : File) : List Delivery := s.calls.filterMap Call.delivery

/-- What only reads change. -/
structure Reading where
  reads : List ReadRequest
  readInProgress : Bool
  readCallback : Option Nat
  registeredIn : Nat
  position : Nat → Nat
  deliveries : List Delivery

def reading (s : File) : Reading :=
  { reads := s.reads
    readInProgress := s.readInProgress
    readCallback := s.readCallback
    registeredIn := s.registeredIn
    position := s.position
    deliveries := s.deliveries }

/-- What reads do not change. -/
structure Lifecycle where
  state : State
  currentOffset : Nat
  fileHandle : Option Nat
  openRequests : List OpenRequest
  closeRequests : List CloseCallback
  opens : Nat

def lifecycle (s : File) : Lifecycle :=
  { state := s.state
    currentOffset := s.currentOffset
    fileHandle := s.fileHandle
    openRequests := s.openRequests
    closeRequests := s.closeRequests
    opens := s.opens }

/-! ## Opening and closing -/

variable {error : Error}

theorem reading_log {call : Call} (h : call.delivery = none) (s : File) :
    (s.log call).reading = s.reading := by
  simp [reading, deliveries, log, h]

section

variable (s : File)
include s

section

variable (callback : CloseCallback)
include callback

theorem reading_runCloseCallback (error : Error) :
    (s.runCloseCallback callback error).1.reading = s.reading := by
  refine CloseCallback.run_cases (P := fun _ t => t.reading = s.reading) closeReport s error
    ?_ ?_ ?_ ?_ callback
  · exact fun _ _ => rfl
  · exact fun _ => reading_log rfl s
  · exact fun _ => reading_log rfl s
  · exact fun _ _ => rfl

/-- A close callback can only log and schedule. -/
theorem runCloseCallback_eq (error : Error) :
    ∃ calls scheduled, (s.runCloseCallback callback error).1 =
      { s with calls := calls, scheduled := scheduled } := by
  refine CloseCallback.run_cases
    (P := fun _ t => ∃ calls scheduled, t = { s with calls := calls, scheduled := scheduled })
    closeReport s error ?_ ?_ ?_ ?_ callback
  · exact fun _ _ => ⟨_, _, rfl⟩
  · exact fun _ => ⟨_, _, rfl⟩
  · exact fun _ => ⟨_, _, rfl⟩
  · exact fun _ _ => ⟨_, _, rfl⟩

theorem running_runCloseCallback (error : Error) :
    (s.runCloseCallback callback error).1.running = s.running := by
  obtain ⟨calls, scheduled, heq⟩ := runCloseCallback_eq s callback error
  rw [heq]

theorem reading_close (refusal : Option Failure) :
    (s.close callback refusal).reading = s.reading := by
  unfold close
  split
  · split <;> rfl
  · split
    · exact reading_runCloseCallback ..
    · split
      · rfl
      · dsimp only
        split <;> rfl

end

theorem reading_afterClose : s.afterClose.reading = s.reading := by
  unfold afterClose finishClose
  split
  · split <;> rfl
  · rfl

theorem reading_reportClose (callback : CloseCallback) (error : Error) :
    (s.reportClose callback error).reading = s.reading := by
  have h := reading_runCloseCallback s callback error
  unfold reportClose
  split
  next hcall => rwa [hcall] at h
  next hcall =>
    rw [hcall] at h
    exact (reading_afterClose _).trans h

theorem openFile_cases {P : File → Prop} (callback : Option Nat) (refusal : Option Failure)
    (closes : s.state = .opened → P (s.close (.reopen callback) refusal))
    (waits : s.state = .opening ∨ s.state = .closing → P (s.schedule (.openFile callback)))
    (opens : s.state = .initial ∨ s.state = .closed → P (s.requestOpen callback)) :
    P (s.openFile callback refusal) := by
  cases hstate : s.state <;>
    simp only [openFile, continueOpen, FsObject.isOpened, FsObject.isInitialOrClosed, hstate]
  · exact opens (.inl hstate)
  · exact waits (.inl hstate)
  · exact closes hstate
  · exact waits (.inr hstate)
  · exact opens (.inr hstate)

theorem reading_openFile (callback : Option Nat) (refusal : Option Failure) :
    (s.openFile callback refusal).reading = s.reading :=
  openFile_cases (P := fun t => t.reading = s.reading) s callback refusal
    (fun _ => reading_close ..) (fun _ => rfl) (fun _ => rfl)

theorem reading_onOpen (error : Error) : (s.onOpen error).reading = s.reading := by
  unfold onOpen
  split
  · split
    · rfl
    · exact reading_log rfl s
  · dsimp only
    split
    · rfl
    · exact reading_log rfl s

theorem onOpen_ok (h : error.isError = false) :
    (s.onOpen error).opens = s.opens + 1 ∧ (s.onOpen error).fileHandle = some (s.opens + 1) ∧
      (s.onOpen error).currentOffset = s.currentOffset ∧
      ((s.onOpen error).running = s.running ∨ (s.onOpen error).running = some .opened) := by
  unfold onOpen
  rw [if_neg (by simp [h])]
  dsimp only
  split
  · exact ⟨rfl, rfl, rfl, .inl rfl⟩
  · exact ⟨rfl, rfl, rfl, .inr rfl⟩

theorem reading_runJob (refusal : Option Failure) (job : Job) :
    (s.runJob refusal job).reading = s.reading := by
  cases job with
  | openFile callback => exact reading_openFile ..
  | closeNotOpen callback =>
      have h := reading_runCloseCallback s callback (.ofCode .fileNotOpen)
      dsimp only [runJob]
      split
      next hcall => rwa [hcall] at h
      next hcall => rwa [hcall] at h
  | closeRefused callback error => exact reading_reportClose ..
  | blockRefused request error =>
      dsimp only [runJob]
      split
      · rfl
      · exact reading_log rfl s

end

/-! ## Reads -/

variable {s : File}

structure CanRead (s : File) (i descriptor : Nat) : Prop where
  isOpen : s.fileHandle = some descriptor
  notClosing : s.state ≠ .closing
  notInProgress : s.readInProgress = false
  isFree : (s.buffers i).isFree = true
  lt : i < readBufsNum

theorem freeBuffer_eq_some {i : Nat} (h : s.freeBuffer = some i) :
    i < readBufsNum ∧ (s.buffers i).isFree = true := by
  unfold freeBuffer at h
  exact ⟨List.mem_range.mp (List.mem_of_find?_eq_some h), by simpa using List.find?_some h⟩

theorem scheduleRead_eq_or (s : File) (refusal : Option Failure) :
    s.scheduleRead refusal = (s, .returned) ∨
      ∃ i descriptor, s.CanRead i descriptor ∧
        s.scheduleRead refusal = s.scheduleReadInto i descriptor refusal := by
  unfold scheduleRead
  split
  · exact .inl rfl
  next descriptor hopen =>
    split
    · exact .inl rfl
    next hclosing =>
      split
      · exact .inl rfl
      next hflag =>
        split
        · exact .inl rfl
        next i hfree =>
          obtain ⟨hlt, hi⟩ := freeBuffer_eq_some hfree
          exact .inr ⟨i, descriptor, ⟨hopen, hclosing, by simpa using hflag, hi, hlt⟩, rfl⟩

theorem scheduleRead_closed (h : s.fileHandle = none) (refusal : Option Failure) :
    s.scheduleRead refusal = (s, .returned) := by
  rw [scheduleRead, h]

/-- A property of the state that `schedule_read` keeps, wherever it is called from. -/
structure KeptByReads (P : File → Prop) : Prop where
  dropBuf : ∀ s i, P s → P (s.dropBuf i)
  freeBuf : ∀ s i, P s → P (s.freeBuf i)
  into : ∀ s i descriptor refusal, P s → s.CanRead i descriptor →
    P (s.scheduleReadInto i descriptor refusal).1

namespace KeptByReads

variable {P : File → Prop} (kept : KeptByReads P)

include kept

theorem scheduleRead (h : P s) (refusal : Option Failure) : P (s.scheduleRead refusal).1 := by
  rcases scheduleRead_eq_or s refusal with heq | ⟨i, descriptor, hcan, heq⟩
  · rwa [heq]
  · rw [heq]
    exact kept.into s i descriptor refusal h hcan

theorem onBufferFreed (h : P s) (i : Nat) (refusal : Option Failure) :
    P (s.onBufferFreed i refusal).1 := by
  unfold File.onBufferFreed
  split
  · exact kept.freeBuf s i h
  · exact kept.scheduleRead (kept.freeBuf s i h) refusal

theorem resetBuf (h : P s) (i : Nat) (refusal : Option Failure) : P (s.resetBuf i refusal).1 := by
  unfold File.resetBuf
  split
  · exact kept.dropBuf s i h
  · exact kept.onBufferFreed (kept.dropBuf s i h) i refusal

theorem endWithReset (last : ∀ s, P s → P { s with running := some .last }) (h : P s) (i : Nat)
    (refusal : Option Failure) : P (s.endWithReset i refusal) := by
  have hreset := kept.resetBuf h i refusal
  unfold File.endWithReset
  split
  next heq =>
    rw [heq] at hreset
    exact last _ hreset
  next heq => rwa [heq] at hreset
  next heq => rwa [heq] at hreset

theorem continueReading (last : ∀ s, P s → P { s with running := some .last })
    (refused : ∀ s i, P s → P { s with running := some (.refused i) }) (h : P s) (i : Nat)
    (refusal : Option Failure) : P (s.continueReading i refusal) := by
  have hread := kept.scheduleRead h refusal
  unfold File.continueReading
  split
  next heq =>
    rw [heq] at hread
    exact kept.endWithReset last hread i refusal
  next heq =>
    rw [heq] at hread
    exact refused _ i hread
  next heq => rwa [heq] at hread

theorem release (drop : ∀ s index, P s → P { s with held := s.held.eraseIdx index }) (h : P s)
    (index i : Nat) (refusal : Option Failure) : P (s.release index i refusal) := by
  unfold File.release
  dsimp only
  split
  · exact drop s index h
  · exact kept.onBufferFreed (drop s index h) i refusal

end KeptByReads

theorem refuseRead_eq (s : File) (error : Failure) :
    ∃ calls nullCalls, (s.refuseRead error).1 = { s with calls := calls, nullCalls := nullCalls } ∧
      calls.filterMap Call.delivery = s.deliveries := by
  unfold refuseRead
  split
  · exact ⟨_, _, rfl, rfl⟩
  · exact ⟨_, _, rfl, by simp [deliveries, Call.delivery]⟩

theorem scheduleReadInto_lifecycle (s : File) (i descriptor : Nat) (refusal : Option Failure) :
    (s.scheduleReadInto i descriptor refusal).1.lifecycle = s.lifecycle := by
  unfold scheduleReadInto refuseRead
  split
  · rfl
  · split <;> rfl

/-- `read_block` of an open file: the request is in flight, or its refusal is to be reported. -/
theorem readBlock_eq {descriptor : Nat} (h : s.fileHandle = some descriptor) (offset count : Nat)
    (readCallback : Option Nat) (refusal : Option Failure) :
    ∃ reads scheduled,
      s.readBlock offset count readCallback refusal =
        { s with
          readCallback := readCallback
          registeredIn := s.opens
          requests := s.requests + 1
          reads := reads
          scheduled := scheduled } ∧
      (reads = s.reads ++ [s.blockRequest descriptor offset count readCallback] ∧
          scheduled = s.scheduled ∨
        reads = s.reads ∧ readCallback = none ∧ scheduled = s.scheduled ∨
        reads = s.reads ∧ readCallback ≠ none ∧ ∃ error, scheduled =
          s.scheduled ++ [.blockRefused (s.blockRequest descriptor offset count readCallback)
            error]) := by
  unfold readBlock
  split
  next hnone => cases h.symm.trans hnone
  next d hd =>
    cases h.symm.trans hd
    dsimp only
    split
    · exact ⟨_, _, rfl, .inl ⟨rfl, rfl⟩⟩
    next error =>
      split
      next hnull => exact ⟨_, _, rfl, .inr (.inl ⟨rfl, by simpa using hnull, rfl⟩)⟩
      next hnull =>
        exact ⟨_, _, rfl, .inr (.inr ⟨rfl, by simpa using hnull, error, rfl⟩)⟩

/-- Without a descriptor a `read_block` is at most logged. -/
theorem readBlock_closed (h : s.fileHandle = none) (offset count : Nat) (readCallback : Option Nat)
    (refusal : Option Failure) :
    ∃ calls, s.readBlock offset count readCallback refusal = { s with calls := calls } ∧
      calls.filterMap Call.delivery = s.deliveries := by
  unfold readBlock
  split
  · split
    · exact ⟨_, rfl, rfl⟩
    · exact ⟨_, rfl, by simp [deliveries, Call.delivery]⟩
  next hd => cases h.symm.trans hd

/-! ## Steps -/

variable {s' : File} {refusal : Option Failure} {id : Nat}

@[simp] theorem userCall_keep_eq_some :
    s.userCall refusal .keep = some s' ↔
      ∃ i size span, s.running = some (.delivered i size) ∧ (s.buffers i).content = some span ∧
        { s with held := s.held ++ [⟨i, span⟩] } = s' := by
  simp only [userCall]
  split
  next i size hrun => simp [hrun]
  next hother =>
    refine ⟨fun h => (by cases h), ?_⟩
    rintro ⟨i, size, span, hrun, -⟩
    exact absurd hrun (hother i size)

@[simp] theorem userCall_release_eq_some {index : Nat} :
    s.userCall refusal (.release index) = some s' ↔
      ∃ held, s.held[index]? = some held ∧ s.release index held.buffer refusal = s' :=
  Option.map_eq_some_iff

@[simp] theorem turnover_scheduled_eq_some :
    s.turnover refusal .scheduled = some s' ↔
      ∃ job rest, s.scheduled = job :: rest ∧
        { s with scheduled := rest }.runJob refusal job = s' := by
  simp only [turnover]
  split
  next hnil => simp [hnil]
  next job rest hcons => simp [hcons]

@[simp] theorem turnover_opened_eq_some :
    s.turnover refusal (.opened id error) = some s' ↔
      ∃ request, (s.openRequests.find? fun request => request.id == id) = some request ∧
        (if request.hasData then
            { s with openRequests := s.openRequests.erase request }.onOpen error
          else { s with openRequests := s.openRequests.erase request }) = s' := by
  simp only [turnover]
  split
  next hnone => simp [hnone]
  next request hsome => simp [hsome]

@[simp] theorem turnover_closed_eq_some {callback : CloseCallback} :
    s.turnover refusal (.closed callback error) = some s' ↔
      callback ∈ s.closeRequests ∧
        { s with closeRequests := s.closeRequests.erase callback }.onClose callback error = s' := by
  simp only [turnover]
  split <;> simp [*]

@[simp] theorem turnover_readDone_eq_some {outcome : ReadOutcome} :
    s.turnover refusal (.readDone id outcome) = some s' ↔
      ∃ request, s.readRequest id = some request ∧ outcome.Allowed request.kind.limit ∧
        s.finishRead request outcome refusal = s' := by
  simp only [turnover]
  split
  next hnone => simp [hnone]
  next request hsome =>
    split
    next hallowed => simp [hsome, hallowed]
    next hallowed => simp [hsome, hallowed]

theorem step_call (s : File) (call : UserCall) (refusal : Option Failure) :
    s.step (.call call refusal) = s.userCall refusal call := rfl

@[simp] theorem step_leave_eq_some :
    s.step (.leave refusal) = some s' ↔
      ∃ frame, s.running = some frame ∧ { s with running := none }.resume refusal frame = s' := by
  simp only [step]
  split
  next hnone => simp [hnone]
  next frame hsome => simp [hsome]

@[simp] theorem step_loop_eq_some {turn : Turnover} :
    s.step (.loop turn refusal) = some s' ↔
      s.running = none ∧ s.turnover refusal turn = some s' := by
  simp only [step]
  split <;> simp [*]

theorem mem_of_readRequest {request : ReadRequest} (h : s.readRequest id = some request) :
    request ∈ s.reads :=
  List.mem_of_find?_eq_some h

end File

end TarmIo.Fs
