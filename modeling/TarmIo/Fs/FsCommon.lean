import TarmIo.StatusCode

/-!
# `fs/detail/FsCommon.h`

`detail::open`, which `File` and `Dir` share: an object that is open is closed first and opened
again when it is closed, one that is on its way is asked again later. Callbacks have numbers, and a
null callback is `none`.
-/

namespace TarmIo.Fs

abbrev Failure := { error : Error // error.isError = true }

/-- A callback that is passed to `close`: one of the user's, or that of `detail::open`, which opens
again for the callback that it carries. -/
inductive CloseCallback
  | user (callback : Option Nat)
  | reopen (callback : Option Nat)
deriving DecidableEq

def CloseCallback.isNull : CloseCallback → Bool
  | .user none => true
  | .user (some _) | .reopen _ => false

def CloseCallback.opens : CloseCallback → List Nat
  | .user _ => []
  | .reopen callback => callback.toList

/-- What its end leaves to do, by the account of `File.rank` and `Dir.rank`. -/
def CloseCallback.rank : CloseCallback → Nat
  | .user _ => 0
  | .reopen _ => 5

/-- What an object does for the callback passed to `close`: it calls a callback of the user for the
end of a close or of an open, or schedules another `open`. -/
structure CloseReport (σ : Type*) where
  closed : σ → Nat → Error → σ
  opened : σ → Nat → Error → σ
  scheduleOpen : σ → Option Nat → σ

/-- The callback passed to `close` is called, unless it is null. The callback of `detail::open`
passes an error on. The result says whether a callback of the user was called. -/
def CloseCallback.run {σ : Type*} (report : CloseReport σ) (s : σ) (callback : CloseCallback)
    (error : Error) : σ × Bool :=
  match callback with
  | .user none => (s, false)
  | .user (some callback) => (report.closed s callback error, true)
  | .reopen callback =>
      if error.isError then
        match callback with
        | none => (s, false)
        | some callback => (report.opened s callback error, true)
      else (report.scheduleOpen s callback, false)

/-- No callback is called, one is called for the end of a close or for an open that failed, or an
open is scheduled. -/
theorem CloseCallback.run_cases {σ : Type*} {P : CloseCallback → σ → Prop}
    (report : CloseReport σ) (s : σ) (error : Error)
    (silent : ∀ callback, callback.opens = [] → P callback s)
    (closed : ∀ c, P (.user (some c)) (report.closed s c error))
    (opened : ∀ c, P (.reopen (some c)) (report.opened s c error))
    (again : error.isError = false →
      ∀ callback, P (.reopen callback) (report.scheduleOpen s callback))
    (callback : CloseCallback) : P callback (callback.run report s error).1 := by
  unfold run
  split
  · exact silent _ rfl
  · exact closed _
  · split
    · split
      · exact silent _ rfl
      · exact opened _
    next hok => exact again (by simpa using hok) _

/-- What `detail::open` uses of its object. `refusal` is the error with which libuv refuses the
request that is made in the call, if it does. -/
class FsObject (σ : Type*) where
  isOpened : σ → Bool
  isInitialOrClosed : σ → Bool
  close : σ → CloseCallback → Option Failure → σ
  scheduleOpen : σ → Option Nat → σ

def continueOpen {σ : Type*} [FsObject σ] (s : σ) (callback : Option Nat)
    (refusal : Option Failure) : Bool × σ :=
  if FsObject.isOpened s then (false, FsObject.close s (.reopen callback) refusal)
  else if !FsObject.isInitialOrClosed s then (false, FsObject.scheduleOpen s callback)
  else (true, s)

end TarmIo.Fs
