import TarmIo.Fs.FileSteps

/-!
# The states of a file

How the state of a file goes together with its descriptor and with the requests to open and to close
it, in every run. There is never more than one of these requests, and an open request is always
answered with its data.
-/

namespace TarmIo.Fs

open Foundation

namespace File

/-- What runs after the callback sets the state or the offset. -/
def Frame.setsFile : Frame → Bool
  | .openFailed | .delivered .. => true
  | .last | .opened | .closed | .ended _ | .refused _ => false

structure Orderly (s : File) : Prop where
  handle : ∀ descriptor ∈ s.fileHandle, descriptor = s.opens
  unopened : s.state = .initial ∨ s.state = .closed → s.fileHandle = none
  opened : s.state = .opened → s.fileHandle ≠ none
  opening : ∀ request ∈ s.openRequests, s.openRequests = [request] ∧ request.hasData = true ∧
    s.state = .opening ∧ s.fileHandle = none ∧ s.currentOffset = 0
  closing : ∀ callback ∈ s.closeRequests, s.closeRequests = [callback] ∧ s.state = .closing ∧
    s.fileHandle ≠ none
  failed : s.running = some .openFailed →
    s.state = .opening ∧ s.fileHandle = none ∧ s.openRequests = []
  delivered : ∀ i size, s.running = some (.delivered i size) →
    s.state ≠ .initial ∧ s.state ≠ .closed ∧ s.openRequests = []

namespace Orderly

variable {s s' : File}

theorem initial : Orderly {} where
  handle _ h := by cases h
  unopened _ := rfl
  opened h := by cases h
  opening _ h := by cases h
  closing _ h := by cases h
  failed h := by cases h
  delivered _ _ h := by cases h

theorem of_lifecycle (h : Orderly s) (heq : s'.lifecycle = s.lifecycle)
    (hrun : ∀ frame ∈ s'.running, frame.setsFile = true → s.running = some frame) : Orderly s' := by
  have hstate : s'.state = s.state := congrArg Lifecycle.state heq
  have hhandle : s'.fileHandle = s.fileHandle := congrArg Lifecycle.fileHandle heq
  have hopen : s'.openRequests = s.openRequests := congrArg Lifecycle.openRequests heq
  have hclose : s'.closeRequests = s.closeRequests := congrArg Lifecycle.closeRequests heq
  have hoffset : s'.currentOffset = s.currentOffset := congrArg Lifecycle.currentOffset heq
  have hopens : s'.opens = s.opens := congrArg Lifecycle.opens heq
  constructor
  · rw [hhandle, hopens]
    exact h.handle
  · rw [hstate, hhandle]
    exact h.unopened
  · rw [hstate, hhandle]
    exact h.opened
  · rw [hopen, hstate, hhandle, hoffset]
    exact h.opening
  · rw [hclose, hstate, hhandle]
    exact h.closing
  · rw [hstate, hhandle, hopen]
    exact fun hr => h.failed (hrun _ hr rfl)
  · rw [hstate, hopen]
    exact fun i size hr => h.delivered i size (hrun _ hr rfl)

theorem no_openRequest (h : Orderly s) (hstate : s.state ≠ .opening) : s.openRequests = [] :=
  List.eq_nil_iff_forall_not_mem.mpr fun request hmem => hstate (h.opening request hmem).2.2.1

theorem no_openRequest_of_handle (h : Orderly s) (hopen : s.fileHandle ≠ none) :
    s.openRequests = [] :=
  List.eq_nil_iff_forall_not_mem.mpr fun request hmem => hopen (h.opening request hmem).2.2.2.1

theorem no_closeRequest (h : Orderly s) (hstate : s.state ≠ .closing) : s.closeRequests = [] :=
  List.eq_nil_iff_forall_not_mem.mpr fun callback hmem => hstate (h.closing callback hmem).2.1

/-! ## Reads -/

/-- A read that starts or completes leaves the file in order, also in the callback of a failed
open. -/
theorem keptByReads (l : Lifecycle) (before : Option Frame) :
    KeptByReads fun s =>
      s.lifecycle = l ∧ ∀ frame ∈ s.running, frame.setsFile = true → before = some frame where
  dropBuf _ _ h := h
  freeBuf _ _ h := h
  into s i descriptor refusal h _ := by
    refine ⟨(scheduleReadInto_lifecycle s i descriptor refusal).trans h.1, ?_⟩
    have hrun : (s.scheduleReadInto i descriptor refusal).1.running = s.running := by
      unfold scheduleReadInto refuseRead
      split
      · rfl
      · split <;> rfl
    rw [hrun]
    exact h.2

section

variable (h : Orderly s)
include h

theorem endWithReset (i : Nat) (refusal : Option Failure) : Orderly (s.endWithReset i refusal) := by
  obtain ⟨heq, hrun⟩ := (keptByReads s.lifecycle s.running).endWithReset
    (fun _ h => ⟨h.1, by simp [Frame.setsFile]⟩) ⟨rfl, fun _ hr _ => hr⟩ i refusal
  exact h.of_lifecycle heq hrun

theorem continueReading (i : Nat) (refusal : Option Failure) :
    Orderly (s.continueReading i refusal) := by
  obtain ⟨heq, hrun⟩ := (keptByReads s.lifecycle s.running).continueReading
    (fun _ h => ⟨h.1, by simp [Frame.setsFile]⟩) (fun _ _ h => ⟨h.1, by simp [Frame.setsFile]⟩)
    ⟨rfl, fun _ hr _ => hr⟩ i refusal
  exact h.of_lifecycle heq hrun

theorem release (index i : Nat) (refusal : Option Failure) :
    Orderly (s.release index i refusal) := by
  obtain ⟨heq, hrun⟩ := (keptByReads s.lifecycle s.running).release
    (fun _ _ h => h) ⟨rfl, fun _ hr _ => hr⟩ index i refusal
  exact h.of_lifecycle heq hrun

theorem resetBuf (i : Nat) (refusal : Option Failure) : Orderly (s.resetBuf i refusal).1 := by
  obtain ⟨heq, hrun⟩ := (keptByReads s.lifecycle s.running).resetBuf
    ⟨rfl, fun _ hr _ => hr⟩ i refusal
  exact h.of_lifecycle heq hrun

theorem reportRead (chunk : Option Chunk) (error : Error) (request : ReadRequest) :
    Orderly (s.reportRead chunk error request) := by
  unfold File.reportRead
  split
  · exact h
  · exact h.of_lifecycle rfl (by simp [Frame.setsFile])

theorem read (readCallback endReadCallback : Option Nat) (refusal : Option Failure) :
    Orderly (s.read readCallback endReadCallback refusal) := by
  unfold File.read
  split
  · split <;> exact h.of_lifecycle rfl fun _ hr _ => hr
  · obtain ⟨heq, hrun⟩ := (keptByReads s.lifecycle s.running).scheduleRead
      (s := { s with
        readCallback := readCallback
        endReadCallback := endReadCallback
        doneRead := false
        registeredIn := s.opens
        readOwner := readCallback }) ⟨rfl, fun _ hr _ => hr⟩ refusal
    exact h.of_lifecycle heq hrun

theorem readBlock (offset count : Nat) (readCallback : Option Nat) (refusal : Option Failure) :
    Orderly (s.readBlock offset count readCallback refusal) := by
  unfold File.readBlock
  split
  · split <;> exact h.of_lifecycle rfl fun _ hr _ => hr
  · dsimp only
    split
    · exact h.of_lifecycle rfl fun _ hr _ => hr
    · split <;> exact h.of_lifecycle rfl fun _ hr _ => hr

/-- The callback for data is called on an open file. -/
theorem deliver (hhandle : s.fileHandle ≠ none) (i size : Nat) :
    Orderly { s with running := some (.delivered i size) } :=
  { h with
    failed := fun hr => by cases hr
    delivered := fun _ _ _ =>
      ⟨fun hs => hhandle (h.unopened (.inl hs)), fun hs => hhandle (h.unopened (.inr hs)),
        h.no_openRequest_of_handle hhandle⟩ }

theorem onRead (request : ReadRequest) (i : Nat) (span : Span) (outcome : ReadOutcome)
    (refusal : Option Failure) : Orderly (s.onRead request i span outcome refusal) := by
  unfold File.onRead
  split
  · exact (h.resetBuf i refusal).reportRead ..
  next hopen =>
    have hhandle : s.fileHandle ≠ none := by
      simpa [isOpen, Option.isSome_iff_ne_none] using hopen
    cases outcome with
    | failed error =>
        refine (resetBuf ?_ i refusal).reportRead ..
        exact h.of_lifecycle rfl fun _ hr _ => hr
    | endOfFile =>
        dsimp only
        split
        · refine endWithReset ?_ i refusal
          exact h.of_lifecycle rfl fun _ hr _ => hr
        · exact h.of_lifecycle rfl (by simp [Frame.setsFile])
    | data size =>
        dsimp only
        split
        · refine continueReading ?_ i refusal
          exact h.of_lifecycle rfl fun _ hr _ => hr
        · exact (h.deliver hhandle i size).of_lifecycle rfl fun _ hr _ => hr

theorem finishRead (request : ReadRequest) (outcome : ReadOutcome) (refusal : Option Failure) :
    Orderly (s.finishRead request outcome refusal) := by
  unfold File.finishRead
  split
  · have htake : Orderly (s.takeRead request outcome) := h.of_lifecycle rfl fun _ hr _ => hr
    unfold onReadBlock
    split
    · exact htake.reportRead ..
    · split
      · exact htake.reportRead ..
      · exact htake
      · exact htake.reportRead ..
  · refine onRead ?_ request _ _ outcome refusal
    exact h.of_lifecycle rfl fun _ hr _ => hr

end

/-! ## Closing and opening -/

section

variable (h : Orderly s)
include h

theorem runCloseCallback (callback : CloseCallback) (error : Error) :
    Orderly (s.runCloseCallback callback error).1 := by
  obtain ⟨calls, scheduled, heq⟩ := runCloseCallback_eq s callback error
  rw [heq]
  exact h.of_lifecycle rfl fun _ hr _ => hr

theorem close (callback : CloseCallback) (refusal : Option Failure) :
    Orderly (s.close callback refusal) := by
  unfold File.close
  split
  · split
    · exact h
    · exact h.of_lifecycle rfl fun _ hr _ => hr
  next hopen =>
    have hhandle : s.fileHandle ≠ none := by
      simpa [isOpen, Option.isSome_iff_ne_none] using hopen
    have hfailed : s.running ≠ some .openFailed := fun hr => hhandle (h.failed hr).2.1
    split
    · exact h.runCloseCallback ..
    next hstate =>
      have hnone := h.no_openRequest_of_handle hhandle
      have hclose := h.no_closeRequest hstate
      cases refusal with
      | none =>
          constructor
          · exact h.handle
          · rintro (hs | hs) <;> cases hs
          · exact fun hs => by cases hs
          · simp [hnone]
          · simp [hclose, hhandle]
          · exact fun hr => absurd hr hfailed
          · exact fun _ _ _ => ⟨by simp, by simp, hnone⟩
      | some error =>
          have hrefused : Orderly { s with state := .closing, fileHandle := none } := by
            constructor
            · exact fun _ hd => by cases hd
            · exact fun _ => rfl
            · exact fun hs => by cases hs
            · simp [hnone]
            · simp [hclose]
            · exact fun hr => absurd hr hfailed
            · exact fun _ _ _ => ⟨by simp, by simp, hnone⟩
          dsimp only
          split
          · exact hrefused
          · exact hrefused.of_lifecycle rfl fun _ hr _ => hr

theorem afterClose : Orderly s.afterClose := by
  unfold File.afterClose finishClose
  split
  next hclosed =>
    have hnone : s.openRequests = [] := h.no_openRequest (by rw [hclosed]; decide)
    split
    · exact h
    · constructor
      · exact h.handle
      · exact h.unopened
      · exact h.opened
      · simp [hnone]
      · exact h.closing
      · exact fun hr => absurd (h.failed hr).1 (by rw [hclosed]; decide)
      · exact fun i size hr => absurd hclosed (h.delivered i size hr).2.1
  · exact h

theorem reportClose (callback : CloseCallback) (error : Error) :
    Orderly (s.reportClose callback error) := by
  have hrun := h.runCloseCallback callback error
  unfold File.reportClose
  split
  next heq =>
    rw [heq] at hrun
    exact hrun.of_lifecycle rfl (by simp [Frame.setsFile])
  next heq =>
    rw [heq] at hrun
    exact hrun.afterClose

theorem onClose (hrun : s.running = none) {callback : CloseCallback}
    (hmem : callback ∈ s.closeRequests) (error : Error) :
    Orderly
      ({ s with closeRequests := s.closeRequests.erase callback }.onClose callback error) := by
  obtain ⟨honly, hstate, -⟩ := h.closing callback hmem
  have hnone := h.no_openRequest (by rw [hstate]; decide)
  refine reportClose ?_ callback error
  constructor
  · exact fun _ hd => by cases hd
  · exact fun _ => rfl
  · exact fun hs => by cases hs
  · simp [hnone]
  · simp [honly]
  · simp [hrun]
  · simp [hrun]

theorem openFile (callback : Option Nat) (refusal : Option Failure) :
    Orderly (s.openFile callback refusal) := by
  refine openFile_cases s callback refusal (fun _ => h.close ..) (fun _ => ?_) fun hstate => ?_
  · exact h.of_lifecycle rfl fun _ hr _ => hr
  · have hhandle := h.unopened hstate
    have hopen : s.openRequests = [] :=
      h.no_openRequest (by rcases hstate with hs | hs <;> simp [hs])
    have hclose : s.closeRequests = [] :=
      h.no_closeRequest (by rcases hstate with hs | hs <;> simp [hs])
    constructor
    · exact h.handle
    · rintro (hs | hs) <;> cases hs
    · exact fun hs => by cases hs
    · simp [requestOpen, hopen, hhandle]
    · simp [requestOpen, hclose]
    · exact fun hr => absurd (h.failed hr).1 (by rcases hstate with hs | hs <;> simp [hs])
    · intro i size hr
      obtain ⟨hinitial, hclosed, -⟩ := h.delivered i size hr
      exact (hstate.elim hinitial hclosed).elim

theorem onOpen (hrun : s.running = none) {request : OpenRequest} (hmem : request ∈ s.openRequests)
    (error : Error) :
    Orderly ({ s with openRequests := s.openRequests.erase request }.onOpen error) := by
  obtain ⟨honly, -, hstate, hhandle, hoffset⟩ := h.opening request hmem
  have hclose := h.no_closeRequest (by rw [hstate]; decide)
  unfold File.onOpen
  split
  · split
    · constructor
      · exact h.handle
      · exact fun _ => hhandle
      · exact fun hs => by cases hs
      · simp [afterOpenFailed, leaveOpen, honly]
      · simp [afterOpenFailed, leaveOpen, hclose]
      · simp [afterOpenFailed, leaveOpen, hrun]
      · simp [afterOpenFailed, leaveOpen, hrun]
    · constructor
      · exact h.handle
      · exact fun _ => hhandle
      · simp [log, hstate]
      · simp [log, honly]
      · simp [log, hclose]
      · simp [log, honly, hstate, hhandle]
      · simp
  · dsimp only
    split
    · constructor
      · simp [leaveOpen]
      · simp [leaveOpen, hstate]
      · simp [leaveOpen]
      · simp [leaveOpen, honly]
      · simp [leaveOpen, hclose]
      · simp [leaveOpen, hrun]
      · simp [leaveOpen, hrun]
    · constructor
      · simp [log]
      · simp
      · simp [log]
      · simp [log, honly]
      · simp [log, hclose]
      · simp
      · simp

theorem runJob (refusal : Option Failure) (job : Job) : Orderly (s.runJob refusal job) := by
  cases job with
  | openFile callback => exact h.openFile ..
  | closeNotOpen callback =>
      have hcall := h.runCloseCallback callback (.ofCode .fileNotOpen)
      dsimp only [File.runJob]
      split
      next heq =>
        rw [heq] at hcall
        exact hcall.of_lifecycle rfl (by simp [Frame.setsFile])
      next heq => rwa [heq] at hcall
  | closeRefused callback error => exact h.reportClose ..
  | blockRefused request error =>
      dsimp only [File.runJob]
      split
      · exact h
      · exact h.of_lifecycle rfl (by simp [Frame.setsFile])

end

/-! ## Steps -/

section

variable (h : Orderly s)
include h

theorem userCall {refusal : Option Failure} {call : UserCall}
    (hcall : s.userCall refusal call = some s') : Orderly s' := by
  cases call with
  | openFile callback =>
      cases hcall
      refine openFile ?_ callback refusal
      exact h.of_lifecycle rfl fun _ hr _ => hr
  | close callback =>
      cases hcall
      exact h.close ..
  | read readCallback endReadCallback =>
      cases hcall
      exact h.read ..
  | readBlock offset count readCallback =>
      cases hcall
      exact { h.readBlock offset count readCallback refusal with }
  | keep =>
      obtain ⟨i, size, span, -, -, rfl⟩ := userCall_keep_eq_some.mp hcall
      exact h.of_lifecycle rfl fun _ hr _ => hr
  | release index =>
      obtain ⟨held, -, rfl⟩ := userCall_release_eq_some.mp hcall
      exact h.release ..

/-- The offset moves on after the callback for data. -/
theorem moveOn {i size : Nat} (hrun : s.running = some (.delivered i size)) (offset : Nat) :
    Orderly { s with running := none, currentOffset := offset } :=
  { h with
    opening := by simp [(h.delivered i size hrun).2.2]
    failed := fun hr => by cases hr
    delivered := fun _ _ hr => by cases hr }

theorem resume {frame : Frame} (hrun : s.running = some frame) (refusal : Option Failure) :
    Orderly ({ s with running := none }.resume refusal frame) := by
  have hnone : Orderly { s with running := none } := h.of_lifecycle rfl (by simp [Frame.setsFile])
  cases frame with
  | last => exact hnone
  | opened => exact hnone.of_lifecycle rfl fun _ hr _ => hr
  | openFailed =>
      obtain ⟨hstate, hhandle, hopen⟩ := h.failed hrun
      have hclose := h.no_closeRequest (by rw [hstate]; decide)
      constructor
      · exact h.handle
      · exact fun _ => hhandle
      · exact fun hs => by cases hs
      · simp [File.resume, afterOpenFailed, leaveOpen, hopen]
      · simp [File.resume, afterOpenFailed, leaveOpen, hclose]
      · exact fun hr => by cases hr
      · exact fun _ _ hr => by cases hr
  | closed => exact hnone.afterClose
  | delivered i size => exact (h.moveOn hrun (s.currentOffset + size)).continueReading ..
  | ended i => exact hnone.endWithReset ..
  | refused i => exact hnone.endWithReset ..

theorem turnover (hrun : s.running = none) {refusal : Option Failure} {turn : Turnover}
    (hturn : s.turnover refusal turn = some s') : Orderly s' := by
  cases turn with
  | scheduled =>
      obtain ⟨job, rest, -, rfl⟩ := turnover_scheduled_eq_some.mp hturn
      refine runJob ?_ refusal job
      exact h.of_lifecycle rfl fun _ hr _ => hr
  | opened id error =>
      obtain ⟨request, hfind, rfl⟩ := turnover_opened_eq_some.mp hturn
      have hmem := List.mem_of_find?_eq_some hfind
      rw [if_pos (h.opening request hmem).2.1]
      exact h.onOpen hrun hmem error
  | closed callback error =>
      obtain ⟨hmem, rfl⟩ := turnover_closed_eq_some.mp hturn
      exact h.onClose hrun hmem error
  | readDone id outcome =>
      obtain ⟨request, -, -, rfl⟩ := turnover_readDone_eq_some.mp hturn
      exact h.finishRead request outcome refusal

end

end Orderly

end File

end TarmIo.Fs
