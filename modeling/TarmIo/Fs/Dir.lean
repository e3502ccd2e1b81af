import TarmIo.Foundation.Execution
import TarmIo.Fs.FsCommon

/-!
# `fs/Dir.cpp`

A directory object with its requests to libuv. It is modelled as `File` is: a completion is an event
with what libuv reports, and handlers stop at the user's callbacks. The results of `uv_fs_opendir`,
of `uv_fs_closedir` and of `uv_fs_readdir` after an entry are not looked at by the source, so that
libuv takes these requests; the first `uv_fs_readdir` of a list may be refused.

The path and `schedule_removal` are left out.
-/

namespace TarmIo.Fs

namespace Dir

inductive State
  | initial
  | opening
  | opened
  | wantClose
  | closing
  | closed
deriving DecidableEq

inductive UvDirentType
  | unknown
  | file
  | dir
  | link
  | fifo
  | socket
  | char
  | block
deriving DecidableEq

inductive DirectoryEntryType
  | unknown
  | file
  | dir
  | link
  | fifo
  | socket
  | char
  | block
deriving DecidableEq

def convertDirentryType : UvDirentType → DirectoryEntryType
  | .file => .file
  | .dir => .dir
  | .link => .link
  | .fifo => .fifo
  | .socket => .socket
  | .char => .char
  | .block => .block
  | .unknown => .unknown

/-- A `ReadDirRequest`: its callbacks, and which of the two handlers it has. -/
structure ListRequest where
  withContinuation : Bool
  listCallback : Option Nat
  endListCallback : Option Nat
deriving DecidableEq

/-- What `uv_fs_readdir` reports: the result is 0, negative, or the one entry that there is room
for. -/
inductive ReadDirOutcome
  | endOfDir
  | failed (error : Failure)
  | entry (name : String) (type : UvDirentType)
deriving DecidableEq

inductive Job
  | openDir (callback : Option Nat)
  | close (callback : CloseCallback)
  | endList (callback : Nat) (error : Error)
deriving DecidableEq

inductive Call
  | opened (callback : Nat) (error : Error)
  | closed (callback : Nat) (error : Error)
  | entry (callback : Nat) (name : String) (type : DirectoryEntryType)
  | endList (callback : Nat) (error : Error)
deriving DecidableEq

/-- The callback that runs, and what its caller goes on with. A list callback may have a
`Continuation`, and `proceed` is its value. -/
inductive Frame
  | last
  | listed (request : ListRequest) (proceed : Bool)
deriving DecidableEq

end Dir

/-- The members of `Dir::Impl` (`isOpen` for `m_uv_dir`), the callbacks scheduled on the loop, and
the requests that libuv has. Then what is only observed: the callback that runs, the calls made so
far, and the callbacks passed to `open`. -/
structure Dir where
  state : Dir.State := .initial
  openCallback : Option Nat := none
  readRequest : Option Dir.ListRequest := none
  isOpen : Bool := false
  scheduled : List Dir.Job := []
  openRequests : Nat := 0
  closeRequests : List CloseCallback := []
  reads : List Dir.ListRequest := []
  running : Option Dir.Frame := none
  calls : List Dir.Call := []
  passed : List Nat := []
deriving DecidableEq

namespace Dir

def schedule (s : Dir) (job : Job) : Dir := { s with scheduled := s.scheduled ++ [job] }

def log (s : Dir) (call : Call) : Dir := { s with calls := s.calls ++ [call] }

/-! ## Closing -/

def closeReport : CloseReport Dir where
  closed s callback error := s.log (.closed callback error)
  opened s callback error := s.log (.opened callback error)
  scheduleOpen s callback := s.schedule (.openDir callback)

def runCloseCallback (s : Dir) (callback : CloseCallback) (error : Error) : Dir × Bool :=
  callback.run closeReport s error

/-- A directory that is not open is left as it is, and the callback is not called. -/
def close (s : Dir) (callback : CloseCallback) : Dir :=
  if !s.isOpen then s
  else if s.readRequest.isSome then { s with state := .wantClose }.schedule (.close callback)
  else if s.state = .closing then
    (s.runCloseCallback callback (.ofCode .operationAlreadyInProgress)).1
  else { s with state := .closing, closeRequests := s.closeRequests ++ [callback] }

def onCloseDir (s : Dir) (callback : CloseCallback) (error : Error) : Dir :=
  match { s with isOpen := false, state := .closed }.runCloseCallback callback error with
  | (s, true) => { s with running := some .last }
  | (s, false) => s

/-! ## Opening -/

instance : FsObject Dir where
  isOpened s := s.state == .opened
  isInitialOrClosed s := s.state == .initial || s.state == .closed
  close s callback _ := s.close callback
  scheduleOpen s callback := s.schedule (.openDir callback)

/-- The part of `open` after `detail::open`. -/
def requestOpen (s : Dir) (callback : Option Nat) : Dir :=
  { s with state := .opening, openCallback := callback, openRequests := s.openRequests + 1 }

def openDir (s : Dir) (callback : Option Nat) : Dir :=
  match continueOpen s callback none with
  | (false, s) => s
  | (true, s) => s.requestOpen callback

/-- The state is the same after an error, when there is no directory. -/
def onOpenDir (s : Dir) (error : Error) : Dir :=
  let s := { s with isOpen := s.isOpen || !error.isError, state := .opened }
  match s.openCallback with
  | none => s
  | some callback => { s.log (.opened callback error) with running := some .last }

/-! ## Listing -/

/-- `DIR_NOT_OPEN` and the refusal of libuv are reported later, and the request of a refused
`uv_fs_readdir` stays. -/
def list (s : Dir) (request : ListRequest) (refusal : Option Failure) : Dir :=
  let reportLater (s : Dir) (error : Error) : Dir :=
    match request.endListCallback with
    | none => s
    | some callback => s.schedule (.endList callback error)
  if !s.isOpen then reportLater s (.ofCode .dirNotOpen)
  else if s.readRequest.isSome then
    match request.endListCallback with
    | none => s
    | some callback => s.log (.endList callback (.ofCode .operationAlreadyInProgress))
  else
    let s := { s with readRequest := some request }
    match refusal with
    | none => { s with reads := s.reads ++ [request] }
    | some error => reportLater s error

def endList (s : Dir) (request : ListRequest) (error : Error) : Dir :=
  let s := { s with readRequest := none }
  match request.endListCallback with
  | none => s
  | some callback => { s.log (.endList callback error) with running := some .last }

def readAgain (s : Dir) (request : ListRequest) : Dir := { s with reads := s.reads ++ [request] }

/-- After the list callback the two handlers differ: the one looks for a close, the other at the
continuation. -/
def afterEntry (s : Dir) (request : ListRequest) (proceed : Bool) : Dir :=
  if request.withContinuation then
    if !proceed then s.endList request {} else s.readAgain request
  else if s.state ≠ .wantClose then s.readAgain request
  else s.endList request {}

/-- `on_read_dir_no_continuation` and `on_read_dir_with_continuation`. -/
def onReadDir (s : Dir) (request : ListRequest) : ReadDirOutcome → Dir
  | .endOfDir => s.endList request {}
  | .failed error => s.endList request error
  | .entry name type =>
      match request.listCallback with
      | none => s.afterEntry request true
      | some callback =>
          { s.log (.entry callback name (convertDirentryType type)) with
            running := some (.listed request true) }

/-! ## Events -/

/-- What the user can do at any time, and `stop` of the continuation of the list callback that
runs. -/
inductive UserCall
  | openDir (callback : Option Nat)
  | close (callback : Option Nat)
  | list (request : ListRequest) (refusal : Option Failure)
  | stop
deriving DecidableEq

/-- What the loop runs: the callback that was scheduled first, or the handler of a request. -/
inductive Turnover
  | scheduled
  | opened (error : Error)
  | closed (callback : CloseCallback) (error : Error)
  | readDone (request : ListRequest) (outcome : ReadDirOutcome)
deriving DecidableEq

inductive Event
  | call (call : UserCall)
  | leave
  | loop (turn : Turnover)
deriving DecidableEq

def userCall (s : Dir) : UserCall → Option Dir
  | .openDir callback => some ({ s with passed := s.passed ++ callback.toList }.openDir callback)
  | .close callback => some (s.close (.user callback))
  | .list request refusal => some (s.list request refusal)
  | .stop =>
      match s.running with
      | some (.listed request _) =>
          if request.withContinuation then
            some { s with running := some (.listed request false) }
          else none
      | _ => none

def resume (s : Dir) : Frame → Dir
  | .last => s
  | .listed request proceed => s.afterEntry request proceed

def runJob (s : Dir) : Job → Dir
  | .openDir callback => s.openDir callback
  | .close callback => s.close callback
  | .endList callback error => { s.log (.endList callback error) with running := some .last }

def turnover (s : Dir) : Turnover → Option Dir
  | .scheduled =>
      match s.scheduled with
      | [] => none
      | job :: rest => some ({ s with scheduled := rest }.runJob job)
  | .opened error =>
      match s.openRequests with
      | 0 => none
      | n + 1 => some ({ s with openRequests := n }.onOpenDir error)
  | .closed callback error =>
      if callback ∈ s.closeRequests then
        some ({ s with closeRequests := s.closeRequests.erase callback }.onCloseDir callback error)
      else none
  | .readDone request outcome =>
      if request ∈ s.reads then
        some ({ s with reads := s.reads.erase request }.onReadDir request outcome)
      else none

def step (s : Dir) : Event → Option Dir
  | .call call => s.userCall call
  | .leave =>
      match s.running with
      | none => none
      | some frame => some ({ s with running := none }.resume frame)
  | .loop turn => if s.running = none then s.turnover turn else none

end Dir

end TarmIo.Fs
