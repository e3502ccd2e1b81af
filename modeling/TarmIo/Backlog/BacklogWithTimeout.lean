import TarmIo.Foundation.Buckets

/-!
# `BacklogWithTimeout.h`

The backlog keeps items in buckets, one for each periodic timer, and reports an
item once its time lies `entity_timeout` back. The answers of the two getters, the
clock and the times of the items, are kept beside the object: they belong to its
user, who may change them between calls and in the expired callback. `reported`
lists the calls of the expired callback.
-/

namespace TarmIo

open Foundation

structure Report (α : Type*) where
  item : α
  itemTime : UInt64
  reportedAt : UInt64
  fromAddItem : Bool
deriving DecidableEq

/-- Times are nanoseconds; `timers` holds the timeouts of the timers in milliseconds. -/
structure BacklogWithTimeout (α : Type*) where
  entityTimeout : UInt64
  timers : List UInt64
  items : List (List α)
  clock : UInt64
  itemTime : α → UInt64
  reported : List (Report α) := []

namespace BacklogWithTimeout

variable {α : Type*}

/-- The user's callback is given the backlog and the item, and may change the backlog. -/
abbrev ExpiredCallback (α : Type*) := BacklogWithTimeout α → α → BacklogWithTimeout α

def timeoutsLoop : Nat → UInt64 → List UInt64
  | 0, _ => []
  | fuel + 1, currentTimeout =>
      currentTimeout ::
        if 1 < currentTimeout / 2 then timeoutsLoop fuel (currentTimeout / 2) else []

/-- A 64-bit timeout is halved to zero in at most 64 rounds. -/
def timeouts (entityTimeout : UInt64) : List UInt64 :=
  timeoutsLoop 64 entityTimeout

def create (entityTimeout clock : UInt64) (itemTime : α → UInt64) : BacklogWithTimeout α where
  entityTimeout := entityTimeout * 1000000
  timers := timeouts entityTimeout
  items := List.replicate (timeouts entityTimeout).length []
  clock := clock
  itemTime := itemTime

def bucketIndexFromTime (b : BacklogWithTimeout α) (time : UInt64) : Nat :=
  if b.timers.headD 0 - time / 1000000 ≤ b.timers.getLastD 0 then 0
  else
    match (b.timers.drop 1).findIdx? fun timeout => timeout * 1000000 ≤ time with
    | some i => i + 1
    | none => b.timers.length - 1

def timeDiff (b : BacklogWithTimeout α) (x : α) : UInt64 :=
  b.clock - b.itemTime x

def bucketFor (b : BacklogWithTimeout α) (x : α) : Nat :=
  b.bucketIndexFromTime (b.entityTimeout - b.timeDiff x)

def callExpired (expired : ExpiredCallback α) (fromAddItem : Bool) (b : BacklogWithTimeout α)
    (x : α) : BacklogWithTimeout α :=
  expired
    { b with
      reported := b.reported ++
        [{ item := x, itemTime := b.itemTime x, reportedAt := b.clock, fromAddItem }] }
    x

def addItem (expired : ExpiredCallback α) (b : BacklogWithTimeout α) (x : α) :
    Bool × BacklogWithTimeout α :=
  if b.clock < b.itemTime x then (false, b) -- item from the future
  else if b.timers.isEmpty then (false, b)
  else if b.entityTimeout ≤ b.timeDiff x then
    let b' := callExpired expired true b x
    -- the callback may have stopped the backlog
    (!b'.timers.isEmpty, b')
  else (true, { b with items := push b.items (b.bucketFor x) x })

/-- The loop of `remove_item` over the first `n` buckets. -/
def removeFrom [DecidableEq α] (x : α) : Nat → List (List α) → Option (List (List α))
  | 0, _ => none
  | _ + 1, [] => none
  | n + 1, items :: rest =>
      if x ∈ items then some (items.erase x :: rest)
      else (removeFrom x n rest).map (items :: ·)

def removeItem [DecidableEq α] (b : BacklogWithTimeout α) (x : α) :
    Bool × BacklogWithTimeout α :=
  match removeFrom x b.timers.length b.items with
  | some items => (true, { b with items })
  | none => (false, b)

def stop (b : BacklogWithTimeout α) : BacklogWithTimeout α :=
  { b with entityTimeout := 0, timers := [], items := [] }

/-- The loop of `on_timer`. `i` is an index into the live bucket `index`, which the callback
may change; `kept` is `bucket_replacement`. `none` says that the rounds did not suffice. -/
def onTimerLoop (expired : ExpiredCallback α) (index : Nat) :
    Nat → Nat → List α → BacklogWithTimeout α → Option (BacklogWithTimeout α)
  | 0, _, _, _ => none
  | fuel + 1, i, kept, b =>
      match (bucket b.items index)[i]? with
      | none => some { b with items := b.items.set index kept }
      | some x =>
          if b.entityTimeout ≤ b.timeDiff x then
            let b' := callExpired expired false b x
            if b'.timers.isEmpty then some b' else onTimerLoop expired index fuel (i + 1) kept b'
          else if b.bucketFor x ≠ index then
            onTimerLoop expired index fuel (i + 1) kept
              { b with items := push b.items (b.bucketFor x) x }
          else onTimerLoop expired index fuel (i + 1) (kept ++ [x]) b

def onTimer (expired : ExpiredCallback α) (fuel index : Nat) (b : BacklogWithTimeout α) :
    Option (BacklogWithTimeout α) :=
  onTimerLoop expired index fuel 0 [] b

/-- A callback that does not call back into the backlog. It may bring the times of items
forward, not beyond the clock. -/
def Quiet (expired : ExpiredCallback α) : Prop :=
  ∀ b x, ∃ itemTime : α → UInt64, expired b x = { b with itemTime } ∧
    (∀ y, b.itemTime y ≤ itemTime y) ∧
    ∀ y, b.itemTime y ≤ b.clock → itemTime y ≤ b.clock

end BacklogWithTimeout

end TarmIo
