import Mathlib.Logic.Function.Basic
import TarmIo.Foundation.Execution
import TarmIo.Fs.FsCommon

/-!
# `fs/File.cpp`

A file object with its requests to libuv, the four read buffers and the chunks that the user keeps.
The completion of a request is an event with what libuv reports. Handlers stop at the user's
callbacks, in which any call may be made, and `running` says how the handler goes on. A callback
that a call of the user invokes at once has nothing behind it, and is only logged.

A descriptor is the number of the successful open that it came from, and bytes are known by the
descriptor, the position and the number they were read with (`Span`). `uv_fs_open` takes every
request; `uv_fs_close` and `uv_fs_read` may refuse one. The loop runs, so
`defer_execution_if_required` defers nothing. `stat` and the removal of the object are left out.
-/

namespace TarmIo.Fs

structure Span where
  descriptor : Nat
  position : Nat
  size : Nat
deriving DecidableEq

structure Chunk where
  span : Span
  offset : Nat
deriving DecidableEq

namespace File

def readBufSize : Nat := 1024 * 4

def readBufsNum : Nat := 4

inductive State
  | initial
  | opening
  | opened
  | closing
  | closed
deriving DecidableEq

/-- A `FileReadRequest`: whether it is free, whether its `buf` is set, and what its memory holds,
which is nothing known while libuv may write to it. -/
structure ReadBuffer where
  isFree : Bool := true
  hasBuf : Bool := false
  content : Option Span := none
deriving DecidableEq

structure OpenRequest where
  id : Nat
  hasData : Bool
deriving DecidableEq

inductive ReadKind
  | sequential (buffer : Nat)
  | block (offset count : Nat)
deriving DecidableEq

def ReadKind.isSequential : ReadKind → Bool
  | .sequential _ => true
  | .block .. => false

def ReadKind.limit : ReadKind → Nat
  | .sequential _ => readBufSize
  | .block _ count => count

/-- A `uv_fs_read`. `owner` is the callback of the call that it is made for; the source does not
keep it. -/
structure ReadRequest where
  id : Nat
  kind : ReadKind
  descriptor : Nat
  owner : Option Nat
deriving DecidableEq

inductive ReadOutcome
  | data (size : Nat)
  | endOfFile
  | failed (error : Failure)
deriving DecidableEq

def ReadOutcome.size : ReadOutcome → Nat
  | .data size => size
  | .endOfFile | .failed _ => 0

/-- What libuv may report: at most the bytes that were asked for. -/
def ReadOutcome.Allowed (limit : Nat) : ReadOutcome → Prop
  | .data size => 0 < size ∧ size ≤ limit
  | .endOfFile | .failed _ => True

instance (limit : Nat) : ∀ outcome : ReadOutcome, Decidable (outcome.Allowed limit)
  | .data size => inferInstanceAs (Decidable (0 < size ∧ size ≤ limit))
  | .endOfFile | .failed _ => .isTrue trivial

/-- A read that is over, with its outcome, and whether the file was open then. -/
structure Completion where
  request : ReadRequest
  outcome : ReadOutcome
  wasOpen : Bool
deriving DecidableEq

/-- A chunk that the user keeps: it refers to a buffer, whose bytes were these. -/
structure Held where
  buffer : Nat
  span : Span
deriving DecidableEq

inductive Job
  | openFile (callback : Option Nat)
  | closeNotOpen (callback : CloseCallback)
  | closeRefused (callback : CloseCallback) (error : Failure)
  | blockRefused (request : ReadRequest) (error : Failure)
deriving DecidableEq

/-- A call of one of the user's callbacks. For a read callback there is the request that is
answered, and the open after which the callback was registered. -/
inductive Call
  | opened (callback : Nat) (error : Error)
  | closed (callback : Nat) (error : Error)
  | read (callback registeredIn : Nat) (chunk : Option Chunk) (error : Error)
      (request : Option ReadRequest)
  | endRead (callback : Nat)
deriving DecidableEq

/-- The callback that runs, and what its caller goes on with. -/
inductive Frame
  | last
  | opened
  | openFailed
  | closed
  | delivered (buffer size : Nat)
  | ended (buffer : Nat)
  | refused (buffer : Nat)
deriving DecidableEq

end File

/-- The members of `File::Impl`, the callbacks scheduled on the loop with the calls that keep it
from exiting, and the requests that libuv has. Then what is only observed, from the number of
successful opens on. A null callback that is called ends the function with an exception. -/
structure File where
  state : File.State := .initial
  openCallback : Option Nat := none
  readCallback : Option Nat := none
  endReadCallback : Option Nat := none
  buffers : Nat → File.ReadBuffer := fun _ => {}
  currentOffset : Nat := 0
  readInProgress : Bool := false
  doneRead : Bool := false
  openRequest : Option Nat := none
  fileHandle : Option Nat := none
  scheduled : List File.Job := []
  blocking : Int := 0
  openRequests : List File.OpenRequest := []
  closeRequests : List CloseCallback := []
  reads : List File.ReadRequest := []
  opens : Nat := 0
  requests : Nat := 0
  position : Nat → Nat := fun _ => 0
  registeredIn : Nat := 0
  readOwner : Option Nat := none
  held : List File.Held := []
  running : Option File.Frame := none
  calls : List File.Call := []
  passed : List Nat := []
  blocks : List File.ReadRequest := []
  completed : List File.Completion := []
  nullCalls : Nat := 0

namespace File

def isOpen (s : File) : Bool := s.fileHandle.isSome

def schedule (s : File) (job : Job) : File := { s with scheduled := s.scheduled ++ [job] }

def log (s : File) (call : Call) : File := { s with calls := s.calls ++ [call] }

def onBuffer (s : File) (i : Nat) (f : ReadBuffer → ReadBuffer) : File :=
  { s with buffers := Function.update s.buffers i (f (s.buffers i)) }

def callRead (s : File) (callback : Nat) (chunk : Option Chunk) (error : Error)
    (request : Option ReadRequest) : File :=
  s.log (.read callback s.registeredIn chunk error request)

/-! ## Closing -/

def closeReport : CloseReport File where
  closed s callback error := s.log (.closed callback error)
  opened s callback error := s.log (.opened callback error)
  scheduleOpen s callback := s.schedule (.openFile callback)

def runCloseCallback (s : File) (callback : CloseCallback) (error : Error) : File × Bool :=
  callback.run closeReport s error

def close (s : File) (callback : CloseCallback) (refusal : Option Failure) : File :=
  if !s.isOpen then
    if callback.isNull then s else s.schedule (.closeNotOpen callback)
  else if s.state = .closing then
    (s.runCloseCallback callback (.ofCode .operationAlreadyInProgress)).1
  else
    match refusal with
    | none => { s with state := .closing, closeRequests := s.closeRequests ++ [callback] }
    | some error =>
        let s := { s with state := .closing, fileHandle := none }
        if callback.isNull then s else s.schedule (.closeRefused callback error)

/-- The open request loses its data pointer. -/
def finishClose (s : File) : File :=
  match s.openRequest with
  | none => s
  | some id =>
      { s with
        openRequest := none
        openRequests := s.openRequests.map fun request =>
          if request.id = id then { request with hasData := false } else request }

/-- The end of `on_close`, and of the callback that reports a refused `uv_fs_close`. -/
def afterClose (s : File) : File := if s.state = .closed then s.finishClose else s

def reportClose (s : File) (callback : CloseCallback) (error : Error) : File :=
  match s.runCloseCallback callback error with
  | (s, true) => { s with running := some .closed }
  | (s, false) => s.afterClose

def onClose (s : File) (callback : CloseCallback) (error : Error) : File :=
  { s with fileHandle := none, state := .closed }.reportClose callback error

/-! ## Opening -/

instance : FsObject File where
  isOpened s := s.state == .opened
  isInitialOrClosed s := s.state == .initial || s.state == .closed
  close := close
  scheduleOpen s callback := s.schedule (.openFile callback)

/-- The part of `open` after `detail::open`. -/
def requestOpen (s : File) (callback : Option Nat) : File :=
  { s with
    state := .opening
    currentOffset := 0
    openCallback := callback
    openRequest := some s.requests
    openRequests := s.openRequests ++ [{ id := s.requests, hasData := true }]
    requests := s.requests + 1 }

def openFile (s : File) (callback : Option Nat) (refusal : Option Failure) : File :=
  match continueOpen s callback refusal with
  | (false, s) => s
  | (true, s) => s.requestOpen callback

/-- `on_open` is left: its guard clears the pointer to the request. -/
def leaveOpen (s : File) : File := { s with openRequest := none }

def afterOpenFailed (s : File) : File := { s with state := .closed }.leaveOpen

/-- `on_open` for a request that has its data. An open without callback stays in its state. -/
def onOpen (s : File) (error : Error) : File :=
  if error.isError then
    match s.openCallback with
    | none => s.afterOpenFailed
    | some callback => { s.log (.opened callback error) with running := some .openFailed }
  else
    let s := { s with fileHandle := some (s.opens + 1), opens := s.opens + 1 }
    match s.openCallback with
    | none => s.leaveOpen
    | some callback =>
        { s.log (.opened callback {}) with state := .opened, running := some .opened }

/-! ## Reading -/

def freeBuffer (s : File) : Option Nat :=
  (List.range readBufsNum).find? fun i => (s.buffers i).isFree

/-- How `schedule_read` ends: it may have called the read callback, or have thrown because that is
null. -/
inductive Turn
  | returned
  | called
  | threw
deriving DecidableEq

/-- The buffer gets a new `buf`, whose deleter lets the loop exit again. -/
def takeBuffer (s : File) (i : Nat) : File :=
  { s.onBuffer i fun _ => { isFree := false, hasBuf := true } with blocking := s.blocking + 1 }

def submitRead (s : File) (i descriptor : Nat) : File :=
  { s with
    readInProgress := true
    reads := s.reads ++
      [{ id := s.requests, kind := .sequential i, descriptor, owner := s.readOwner }]
    requests := s.requests + 1 }

/-- libuv refuses the read: the read callback is called at once, without a check. -/
def refuseRead (s : File) (error : Failure) : File × Turn :=
  match s.readCallback with
  | none => ({ s with nullCalls := s.nullCalls + 1 }, .threw)
  | some callback => (s.callRead callback none error none, .called)

def scheduleReadInto (s : File) (i descriptor : Nat) (refusal : Option Failure) : File × Turn :=
  match refusal with
  | none => ((s.takeBuffer i).submitRead i descriptor, .returned)
  | some error => (s.takeBuffer i).refuseRead error

def scheduleRead (s : File) (refusal : Option Failure) : File × Turn :=
  match s.fileHandle with
  | none => (s, .returned)
  | some descriptor =>
      if s.state = .closing then (s, .returned)
      else if s.readInProgress then (s, .returned)
      else
        match s.freeBuffer with
        | none => (s, .returned)
        | some i => s.scheduleReadInto i descriptor refusal

def freeBuf (s : File) (i : Nat) : File :=
  { s.onBuffer i fun b => { b with isFree := true } with blocking := s.blocking - 1 }

/-- Nothing refers to the buffer any more: the deleter of its pointer. -/
def onBufferFreed (s : File) (i : Nat) (refusal : Option Failure) : File × Turn :=
  if s.doneRead then (s.freeBuf i, .returned) else (s.freeBuf i).scheduleRead refusal

def isHeld (s : File) (i : Nat) : Bool := s.held.any fun h => h.buffer == i

def dropBuf (s : File) (i : Nat) : File := s.onBuffer i fun b => { b with hasBuf := false }

def resetBuf (s : File) (i : Nat) (refusal : Option Failure) : File × Turn :=
  if s.isHeld i then (s.dropBuf i, .returned) else (s.dropBuf i).onBufferFreed i refusal

def endWithReset (s : File) (i : Nat) (refusal : Option Failure) : File :=
  match s.resetBuf i refusal with
  | (s, .called) => { s with running := some .last }
  | (s, .returned) | (s, .threw) => s

def read (s : File) (readCallback endReadCallback : Option Nat) (refusal : Option Failure) : File :=
  if !s.isOpen then
    match readCallback with
    | none => s
    | some callback =>
        s.log (.read callback s.opens none (.ofCode .fileNotOpen) none)
  else
    ({ s with
        readCallback := readCallback
        endReadCallback := endReadCallback
        doneRead := false
        registeredIn := s.opens
        readOwner := readCallback }.scheduleRead refusal).1

def blockRequest (s : File) (descriptor offset count : Nat) (readCallback : Option Nat) :
    ReadRequest :=
  { id := s.requests, kind := .block offset count, descriptor, owner := readCallback }

def readBlock (s : File) (offset count : Nat) (readCallback : Option Nat)
    (refusal : Option Failure) : File :=
  match s.fileHandle with
  | none =>
      match readCallback with
      | none => s
      | some callback =>
          s.log (.read callback s.opens none (.ofCode .fileNotOpen) none)
  | some descriptor =>
      let request := s.blockRequest descriptor offset count readCallback
      let s :=
        { s with
          readCallback := readCallback
          registeredIn := s.opens
          requests := s.requests + 1 }
      match refusal with
      | none => { s with reads := s.reads ++ [request] }
      | some error =>
          if readCallback.isNone then s else s.schedule (.blockRefused request error)

def reportRead (s : File) (chunk : Option Chunk) (error : Error) (request : ReadRequest) : File :=
  match s.readCallback with
  | none => s
  | some callback =>
      { s.callRead callback chunk error (some request) with running := some .last }

def onReadBlock (s : File) (request : ReadRequest) (offset : Nat) (outcome : ReadOutcome) : File :=
  if !s.isOpen then s.reportRead none (.ofCode .fileNotOpen) request
  else
    match outcome with
    | .failed error => s.reportRead none error request
    | .endOfFile => s
    | .data size =>
        s.reportRead (some { span := ⟨request.descriptor, offset, size⟩, offset }) {} request

/-- The end of `on_read` with data: the next read, and then the buffer is given back. -/
def continueReading (s : File) (i : Nat) (refusal : Option Failure) : File :=
  match s.scheduleRead refusal with
  | (s, .returned) => s.endWithReset i refusal
  | (s, .called) => { s with running := some (.refused i) }
  | (s, .threw) => s

/-- `on_read`. `span` are the bytes that were read. -/
def onRead (s : File) (request : ReadRequest) (i : Nat) (span : Span) (outcome : ReadOutcome)
    (refusal : Option Failure) : File :=
  if !s.isOpen then
    (s.resetBuf i refusal).1.reportRead none (.ofCode .fileNotOpen) request
  else
    let s := { s with readInProgress := false }
    match outcome with
    | .failed error =>
        ({ s with doneRead := true }.resetBuf i refusal).1.reportRead none error request
    | .endOfFile =>
        let s := { s with doneRead := true }
        match s.endReadCallback with
        | none => s.endWithReset i refusal
        | some callback => { s.log (.endRead callback) with running := some (.ended i) }
    | .data size =>
        match s.readCallback with
        | none => s.continueReading i refusal
        | some callback =>
            { s.callRead callback (some { span, offset := s.currentOffset }) {} (some request) with
              running := some (.delivered i size) }

def spanOf (s : File) (request : ReadRequest) (outcome : ReadOutcome) : Span :=
  ⟨request.descriptor, s.position request.descriptor, outcome.size⟩

/-- libuv has written to the memory of the buffer, and has moved the position. -/
def landRead (s : File) (request : ReadRequest) (i : Nat) (outcome : ReadOutcome) : File :=
  { s.onBuffer i fun b => { b with content := some (s.spanOf request outcome) } with
    position := Function.update s.position request.descriptor
      (s.position request.descriptor + outcome.size) }

def takeRead (s : File) (request : ReadRequest) (outcome : ReadOutcome) : File :=
  { s with
    reads := s.reads.erase request
    completed := s.completed ++ [⟨request, outcome, s.isOpen⟩] }

def finishRead (s : File) (request : ReadRequest) (outcome : ReadOutcome)
    (refusal : Option Failure) : File :=
  match request.kind with
  | .block offset _ => (s.takeRead request outcome).onReadBlock request offset outcome
  | .sequential i =>
      ((s.takeRead request outcome).landRead request i outcome).onRead request i
        (s.spanOf request outcome) outcome refusal

/-! ## Events -/

/-- What the user can do at any time: call the file, or copy and drop chunks. -/
inductive UserCall
  | openFile (callback : Option Nat)
  | close (callback : Option Nat)
  | read (readCallback endReadCallback : Option Nat)
  | readBlock (offset count : Nat) (readCallback : Option Nat)
  | keep
  | release (index : Nat)
deriving DecidableEq

/-- What the loop runs: the callback that was scheduled first, or the handler of a request. -/
inductive Turnover
  | scheduled
  | opened (id : Nat) (error : Error)
  | closed (callback : CloseCallback) (error : Error)
  | readDone (id : Nat) (outcome : ReadOutcome)
deriving DecidableEq

/-- In one event libuv is asked for at most one read or close, and `refusal` is its answer. -/
inductive Event
  | call (call : UserCall) (refusal : Option Failure)
  | leave (refusal : Option Failure)
  | loop (turn : Turnover) (refusal : Option Failure)
deriving DecidableEq

def release (s : File) (index i : Nat) (refusal : Option Failure) : File :=
  let s := { s with held := s.held.eraseIdx index }
  if (s.buffers i).hasBuf || s.isHeld i then s else (s.onBufferFreed i refusal).1

def userCall (s : File) (refusal : Option Failure) : UserCall → Option File
  | .openFile callback =>
      some ({ s with passed := s.passed ++ callback.toList }.openFile callback refusal)
  | .close callback => some (s.close (.user callback) refusal)
  | .read readCallback endReadCallback => some (s.read readCallback endReadCallback refusal)
  | .readBlock offset count readCallback =>
      some { s.readBlock offset count readCallback refusal with
        blocks := s.blocks ++
          s.fileHandle.toList.map (s.blockRequest · offset count readCallback) }
  | .keep =>
      match s.running with
      | some (.delivered i _) =>
          (s.buffers i).content.map fun span => { s with held := s.held ++ [⟨i, span⟩] }
      | _ => none
  | .release index => s.held[index]?.map fun h => s.release index h.buffer refusal

def resume (s : File) (refusal : Option Failure) : Frame → File
  | .last => s
  | .opened => s.leaveOpen
  | .openFailed => s.afterOpenFailed
  | .closed => s.afterClose
  | .delivered i size =>
      { s with currentOffset := s.currentOffset + size }.continueReading i refusal
  | .ended i | .refused i => s.endWithReset i refusal

def answerRefused (s : File) (callback : Nat) (request : ReadRequest) (error : Failure) : File :=
  { s.log (.read callback request.descriptor none error (some request)) with
    completed := s.completed ++ [⟨request, .failed error, true⟩] }

def runJob (s : File) (refusal : Option Failure) : Job → File
  | .openFile callback => s.openFile callback refusal
  | .closeNotOpen callback =>
      match s.runCloseCallback callback (.ofCode .fileNotOpen) with
      | (s, true) => { s with running := some .last }
      | (s, false) => s
  | .closeRefused callback error => s.reportClose callback error
  | .blockRefused request error =>
      match request.owner with
      | none => s
      | some callback =>
          { s.answerRefused callback request error with running := some .last }

def readRequest (s : File) (id : Nat) : Option ReadRequest :=
  s.reads.find? fun request => request.id == id

def turnover (s : File) (refusal : Option Failure) : Turnover → Option File
  | .scheduled =>
      match s.scheduled with
      | [] => none
      | job :: rest => some ({ s with scheduled := rest }.runJob refusal job)
  | .opened id error =>
      match s.openRequests.find? fun request => request.id == id with
      | none => none
      | some request =>
          let s := { s with openRequests := s.openRequests.erase request }
          some (if request.hasData then s.onOpen error else s)
  | .closed callback error =>
      if callback ∈ s.closeRequests then
        some ({ s with closeRequests := s.closeRequests.erase callback }.onClose callback error)
      else none
  | .readDone id outcome =>
      match s.readRequest id with
      | none => none
      | some request =>
          if outcome.Allowed request.kind.limit then some (s.finishRead request outcome refusal)
          else none

def step (s : File) : Event → Option File
  | .call call refusal => s.userCall refusal call
  | .leave refusal =>
      match s.running with
      | none => none
      | some frame => some ({ s with running := none }.resume refusal frame)
  | .loop turn refusal => if s.running = none then s.turnover refusal turn else none

end File

end TarmIo.Fs
