import TarmIo.Foundation.Feeding
import TarmIo.StatusCode
import TarmIo.Core.VariableLengthSize

/-!
# Receiving in `net/GenericMessageOrientedClientBase.h`

The receive state of a message-oriented client and its `on_data_receive`. Sizes
and offsets are 64-bit words. `buffer` is the memory from `m_buffer` on: a write
past `max_message_size` lands there as well, so each `memcpy` is logged with its
offset and length and can be judged against the allocation.
-/

namespace TarmIo.Net

open TarmIo.Core

/-- A chunk the transport passes in; its size is a `size_t`. -/
structure DataChunk where
  bytes : List UInt8
  size_lt : bytes.length < 2 ^ 64

structure Report where
  bytes : Option (List UInt8)
  size : UInt64
  error : Error
deriving DecidableEq

inductive ReceiveEffect where
  | memcpy (offset size : Nat)
  | callback (report : Report)
deriving DecidableEq

structure MessageClient where
  maxMessageSize : UInt64
  currentMessageOffset : UInt64
  currentMessageSize : VariableLengthSize
  buffer : Nat → UInt8

namespace MessageClient

/-- A new object. The allocation is not initialised, so its content is arbitrary. -/
def fresh (maxMessageSize : UInt64) (memory : Nat → UInt8) : MessageClient :=
  ⟨maxMessageSize, 0, {}, memory⟩

def currentMessageTooLarge (s : MessageClient) : Bool :=
  s.currentMessageSize.isComplete && s.currentMessageSize.value > s.maxMessageSize

def memcpy (memory : Nat → UInt8) (offset : Nat) (src : List UInt8) : Nat → UInt8 :=
  fun i => if offset ≤ i ∧ i < offset + src.length then src.getD (i - offset) 0 else memory i

/-- The bytes a receiver of `{m_buffer, size}` sees. -/
def content (memory : Nat → UInt8) (size : Nat) : List UInt8 := (List.range size).map memory

theorem content_eq_iff {memory : Nat → UInt8} {bytes : List UInt8} :
    content memory bytes.length = bytes ↔ ∀ i < bytes.length, bytes[i]? = some (memory i) := by
  constructor
  · intro h i hi
    rw [← h]
    simp [content, hi]
  · intro h
    apply List.ext_getElem?
    intro i
    by_cases hi : i < bytes.length
    · simp [content, hi, ← h i hi]
    · simp [content, hi]

/-- The size part of one round; `callback` says that the receive callback is set. -/
def readSize (callback : Bool) (s : MessageClient) (rest : List UInt8) :
    MessageClient × List ReceiveEffect × List UInt8 :=
  let r := s.currentMessageSize.addBytes (some rest)
  let s := { s with currentMessageSize := r.2 }
  let tooLong :=
    if s.currentMessageTooLarge && callback then
      [.callback ⟨none, s.currentMessageSize.value, .ofCode .messageTooLong⟩]
    else []
  let failed :=
    if s.currentMessageSize.fail && callback then
      [.callback ⟨none, 0, .ofCode .protocolError⟩]
    else []
  (s, tooLong ++ failed, rest.drop r.1)

def sizeToCopy (s : MessageClient) (bytesLeft : Nat) : Nat :=
  if (s.currentMessageSize.value - s.currentMessageOffset).toNat < bytesLeft then
    (s.currentMessageSize.value - s.currentMessageOffset).toNat
  else bytesLeft

def takePayload (callback : Bool) (s : MessageClient) (rest : List UInt8) :
    MessageClient × List ReceiveEffect × List UInt8 :=
  let n := s.sizeToCopy rest.length
  let tooLarge := s.currentMessageTooLarge
  let copies := if tooLarge then [] else [.memcpy s.currentMessageOffset.toNat n]
  let memory :=
    if tooLarge then s.buffer
    else memcpy s.buffer s.currentMessageOffset.toNat (rest.take n)
  let offset := s.currentMessageOffset + UInt64.ofNat n
  if offset = s.currentMessageSize.value then
    let delivered :=
      if callback && !tooLarge then
        [.callback ⟨some (content memory s.currentMessageSize.value.toNat),
          s.currentMessageSize.value, {}⟩]
      else []
    ({ s with
        buffer := memory
        currentMessageSize := s.currentMessageSize.reset
        currentMessageOffset := 0 },
      copies ++ delivered, rest.drop n)
  else ({ s with buffer := memory, currentMessageOffset := offset }, copies, rest.drop n)

/-- The body of the `while` loop. Its `return` behind the size part leaves no bytes,
so it is an end of the loop like any other. -/
def receiveRound (callback : Bool) (s : MessageClient) (rest : List UInt8) :
    MessageClient × List ReceiveEffect × List UInt8 :=
  let size := if s.currentMessageSize.isComplete then (s, [], rest) else readSize callback s rest
  if size.2.2 = [] then size
  else
    let payload := takePayload callback size.1 size.2.2
    (payload.1, size.2.1 ++ payload.2.1, payload.2.2)

/-- The loop, for at most the given number of rounds. A round without progress
happens only on an empty message, which resets the size, so twice the number of
bytes is enough. -/
def receiveLoop (callback : Bool) :
    Nat → MessageClient → List UInt8 → MessageClient × List ReceiveEffect
  | 0, s, _ => (s, [])
  | rounds + 1, s, rest =>
      if rest = [] then (s, [])
      else
        let r := receiveRound callback s rest
        let q := receiveLoop callback rounds r.1 r.2.2
        (q.1, r.2.1 ++ q.2)

def roundsBound (rest : List UInt8) : Nat := 2 * rest.length + 1

def onDataReceive (callback : Bool) (s : MessageClient) (data : DataChunk) (error : Error) :
    MessageClient × List ReceiveEffect :=
  if error.isError then (s, if callback then [.callback ⟨none, 0, error⟩] else [])
  else receiveLoop callback (roundsBound data.bytes) s data.bytes

def receiveAll (callback : Bool) (s : MessageClient) (chunks : List DataChunk) :
    MessageClient × List ReceiveEffect :=
  Foundation.feed (fun s data => onDataReceive callback s data {}) s chunks

end MessageClient

def reports (effects : List ReceiveEffect) : List Report :=
  effects.filterMap fun
    | .callback r => some r
    | .memcpy _ _ => none

@[simp] theorem reports_nil : reports [] = [] := rfl

@[simp] theorem reports_callback (r : Report) (es : List ReceiveEffect) :
    reports (.callback r :: es) = r :: reports es := rfl

@[simp] theorem reports_memcpy (o n : Nat) (es : List ReceiveEffect) :
    reports (.memcpy o n :: es) = reports es := rfl

@[simp] theorem reports_append (xs ys : List ReceiveEffect) :
    reports (xs ++ ys) = reports xs ++ reports ys := List.filterMap_append

def IsChunking (stream : List UInt8) (chunks : List DataChunk) : Prop :=
  Foundation.IsCut stream (chunks.map DataChunk.bytes)

end TarmIo.Net
