import TarmIo.Foundation.Execution
import TarmIo.Foundation.SharedBuffers
import TarmIo.Net.MessageReceive

/-!
# Chunks that the user keeps

The two places where received data are delivered in a buffer of the library: `alloc_read_buffer`
and `on_read` of `TcpClient` and `TcpConnectedClient`, and `read_from_ssl` of
`OpenSslClientImplBase`. Both are machines that stop in the receive callback, in which the user may
copy the chunk and drop other ones; chunks can be copied and dropped at any other time as well.
-/

namespace TarmIo.Net

open Foundation MessageClient

/-- The size and the offset of a `DataChunk`, and the bytes that its buffer had when it was
delivered. -/
structure Delivery where
  size : Nat
  offset : UInt64
  bytes : List UInt8
deriving DecidableEq

def Delivery.Unchanged (d : Delivery) (memory : Nat → UInt8) : Prop :=
  content memory d.size = d.bytes

def Delivery.of (memory : Nat → UInt8) (size : Nat) (offset : UInt64) : Delivery where
  size
  offset
  bytes := content memory size

abbrev ChunkBuffers := SharedBuffers (Nat → UInt8) Delivery

def ChunkBuffers.empty : ChunkBuffers where
  memory _ _ := 0

theorem ChunkBuffers.separate_empty :
    ChunkBuffers.empty.Separate Delivery.Unchanged where
  holds _ hc := by cases hc
  known _ hc := by cases hc
  allocated _ hb := by cases hb
  argument _ hc := by cases hc
  apart _ _ hb := by cases hb

/-! ## Reading from a stream -/

/-- The members of `TcpClientImplBase` that reading uses. `handed` is the buffer that libuv may
write to, with its length, and `receiving` the number of bytes and `prev_use_count` while the
receive callback runs. -/
structure StreamReader where
  buffers : ChunkBuffers := .empty
  readBufSize : Nat := 0
  dataOffset : UInt64 := 0
  handed : Option (Nat × Nat) := none
  receiving : Option (Nat × Nat) := none

/-- `onRead` is a read of libuv followed by `on_read`; `receives` says that the receive callback is
set. In `onReadError` the buffer is not looked at. -/
inductive ReaderEvent
  | allocReadBuffer (suggestedSize : Nat)
  | onRead (bytes : List UInt8) (receives : Bool)
  | onReadError
  | leave
  | use (u : Use)
deriving DecidableEq

namespace StreamReader

def allocReadBuffer (s : StreamReader) (suggestedSize : Nat) : StreamReader :=
  let s :=
    if s.buffers.pointer = none then
      { s with buffers := s.buffers.allocate, readBufSize := suggestedSize }
    else s
  { s with handed := s.buffers.pointer.map (·, s.readBufSize) }

/-- The buffer has been filled. Up to the receive callback, or to the end. -/
def onRead (s : StreamReader) (nread : Nat) (receives : Bool) : StreamReader :=
  if nread ≠ 0 ∧ receives then
    let memory := s.buffers.pointer.elim (fun _ => 0) s.buffers.memory
    { s with
      buffers := s.buffers.deliver (.of memory nread s.dataOffset)
      receiving := some (nread, s.buffers.pointerCount) }
  else { s with dataOffset := s.dataOffset + UInt64.ofNat nread }

def finishRead (s : StreamReader) (nread prevUseCount : Nat) : StreamReader :=
  let buffers := s.buffers.returned
  { s with
    buffers := if prevUseCount ≠ buffers.pointerCount then buffers.release else buffers
    dataOffset := s.dataOffset + UInt64.ofNat nread
    receiving := none }

def step (s : StreamReader) : ReaderEvent → Option StreamReader
  | .allocReadBuffer suggestedSize =>
      if s.receiving = none then some (s.allocReadBuffer suggestedSize) else none
  | .onRead bytes receives =>
      match s.receiving, s.handed with
      | none, some (base, len) =>
          if bytes.length ≤ len then
            let buffers := s.buffers.write base (memcpy (s.buffers.memory base) 0 bytes)
            some ({ s with buffers, handed := none }.onRead bytes.length receives)
          else none
      | _, _ => none
  | .onReadError => if s.receiving = none then some { s with handed := none } else none
  | .leave =>
      match s.receiving with
      | some (nread, prevUseCount) => some (s.finishRead nread prevUseCount)
      | none => none
  | .use u => (s.buffers.use u).map fun buffers => { s with buffers }

/-- What is handed to libuv is `m_read_buf`, and before a callback it is not shared. -/
structure Sound (s : StreamReader) : Prop where
  separate : s.buffers.Separate Delivery.Unchanged
  handed : ∀ base len, s.handed = some (base, len) → s.buffers.pointer = some base
  resting : s.receiving = none → s.buffers.argument = none
  receiving : ∀ nread prevUseCount, s.receiving = some (nread, prevUseCount) →
    prevUseCount = 1 ∧ s.handed = none

variable {s s' : StreamReader}

theorem sound_start : Sound {} where
  separate := ChunkBuffers.separate_empty
  handed _ _ h := by cases h
  resting _ := rfl
  receiving _ _ h := by cases h

theorem Sound.allocReadBuffer (h : s.Sound) (hrest : s.receiving = none) (suggestedSize : Nat) :
    (s.allocReadBuffer suggestedSize).Sound := by
  have hno := h.resting hrest
  rw [StreamReader.allocReadBuffer]
  split
  · refine ⟨h.separate.allocate hno, fun base len hhanded => ?_, fun _ => hno, fun _ _ hr => ?_⟩
    · cases hhanded
      rfl
    · exact absurd (hrest.symm.trans hr) (by simp)
  · refine ⟨h.separate, fun base len hhanded => ?_, fun _ => hno, fun _ _ hr => ?_⟩
    · obtain ⟨buffer, hbuffer, heq⟩ := Option.map_eq_some_iff.mp hhanded
      cases heq
      exact hbuffer
    · exact absurd (hrest.symm.trans hr) (by simp)

theorem Sound.onRead (h : s.Sound) (hrest : s.receiving = none) (hhanded : s.handed = none)
    {base : Nat} (hpointer : s.buffers.pointer = some base) (nread : Nat) (receives : Bool) :
    (s.onRead nread receives).Sound := by
  have hno := h.resting hrest
  rw [StreamReader.onRead]
  split
  · rw [hpointer]
    refine ⟨h.separate.deliver hpointer rfl, ?_, (fun hr => by cases hr), ?_⟩
    · intro base' len hhanded'
      cases hhanded.symm.trans hhanded'
    · intro _ _ hr
      cases hr
      exact ⟨h.separate.pointerCount_eq_one hno hpointer, hhanded⟩
  · exact ⟨h.separate, h.handed, h.resting, h.receiving⟩

theorem Sound.finishRead (h : s.Sound) {nread prevUseCount : Nat}
    (hreceiving : s.receiving = some (nread, prevUseCount)) :
    (s.finishRead nread prevUseCount).Sound := by
  obtain ⟨rfl, hhanded⟩ := h.receiving nread prevUseCount hreceiving
  refine ⟨?_, ?_, fun _ => ?_, fun _ _ hr => by cases hr⟩
  · rw [StreamReader.finishRead]
    dsimp only
    split
    · exact h.separate.giveUp
    · rename_i hsame
      exact h.separate.reuse (not_not.mp hsame).symm
  · intro base len hh
    cases hhanded.symm.trans hh
  · rw [StreamReader.finishRead]
    dsimp only
    split
    · rfl
    · rfl

theorem Sound.use (h : s.Sound) {u : Use} {buffers : ChunkBuffers}
    (huse : s.buffers.use u = some buffers) : Sound { s with buffers } := by
  obtain ⟨kept, rfl, _, _⟩ := SharedBuffers.use_subset huse
  exact ⟨h.separate.use huse, h.handed, h.resting, h.receiving⟩

theorem Sound.step (h : s.Sound) {e : ReaderEvent} (hstep : s.step e = some s') : s'.Sound := by
  cases e with
  | allocReadBuffer suggestedSize =>
      rw [StreamReader.step] at hstep
      split at hstep
      · rename_i hrest
        cases hstep
        exact h.allocReadBuffer hrest suggestedSize
      · cases hstep
  | onRead bytes receives =>
      rw [StreamReader.step] at hstep
      split at hstep
      · rename_i base len hrest hhanded
        split at hstep
        · cases hstep
          have hpointer := h.handed base len hhanded
          have hno := h.resting hrest
          have hwritten : Sound
              { s with
                buffers := s.buffers.write base (memcpy (s.buffers.memory base) 0 bytes)
                handed := none } := by
            refine ⟨h.separate.write hno hpointer _, ?_, fun _ => hno, ?_⟩
            · intro _ _ hh
              cases hh
            · intro _ _ hr
              cases hrest.symm.trans hr
          exact hwritten.onRead hrest rfl hpointer bytes.length receives
        · cases hstep
      · cases hstep
  | onReadError =>
      rw [StreamReader.step] at hstep
      split at hstep
      · rename_i hrest
        cases hstep
        refine ⟨h.separate, (fun _ _ hh => by cases hh), h.resting, fun _ _ hr => ?_⟩
        cases hrest.symm.trans hr
      · cases hstep
  | leave =>
      rw [StreamReader.step] at hstep
      split at hstep
      · rename_i nread prevUseCount hreceiving
        cases hstep
        exact h.finishRead hreceiving
      · cases hstep
  | use u =>
      obtain ⟨buffers, huse, rfl⟩ := Option.map_eq_some_iff.mp hstep
      exact h.use huse

def Intact (s : StreamReader) : Prop :=
  ∀ c ∈ s.buffers.kept, c.2.Unchanged (s.buffers.memory c.1)

theorem intact_throughout (run : List ReaderEvent) :
    Throughout StreamReader.step Intact {} run :=
  throughout_of_invariant (fun _ (h : Sound _) _ hc => (h.separate.mem_kept hc).1)
    (fun _ _ _ h hstep => h.step hstep) sound_start run

end StreamReader

/-! ## Decrypting -/

def decryptBufSize : Nat := 16 * 1024

/-- Where `read_from_ssl` is: not called, about to call `SSL_read`, or in `on_ssl_read`, with the
size and `prev_use_count` or with an error. -/
inductive DecryptPhase
  | resting
  | reading
  | receiving (decryptedSize prevUseCount : Nat)
  | failing
deriving DecidableEq

/-- What `SSL_read` returns: bytes, nothing (zero, or an error that wants more data), or another
error. -/
inductive SslRead
  | decrypted (bytes : List UInt8)
  | nothing
  | failed
deriving DecidableEq

/-- The members of `OpenSslClientImplBase` that reading uses. The constructor allocates
`m_decrypt_buf`. -/
structure Decrypter where
  buffers : ChunkBuffers := ChunkBuffers.empty.allocate
  dataOffset : UInt64 := 0
  phase : DecryptPhase := .resting

inductive DecrypterEvent
  | readFromSsl
  | sslRead (result : SslRead)
  | leave
  | use (u : Use)
deriving DecidableEq

namespace Decrypter

/-- `SSL_read` has filled the buffer. Up to `on_ssl_read`. -/
def receive (s : Decrypter) (decryptedSize : Nat) : Decrypter :=
  let memory := s.buffers.pointer.elim (fun _ => 0) s.buffers.memory
  { s with
    buffers := s.buffers.deliver (.of memory decryptedSize s.dataOffset)
    phase := .receiving decryptedSize s.buffers.pointerCount }

def finishReceive (s : Decrypter) (decryptedSize prevUseCount : Nat) : Decrypter :=
  let buffers := s.buffers.returned
  { s with
    buffers := if prevUseCount ≠ buffers.pointerCount then buffers.allocate else buffers
    dataOffset := s.dataOffset + UInt64.ofNat decryptedSize
    phase := .reading }

/-- `SSL_read`, and what `read_from_ssl` does with its result. -/
def sslRead (s : Decrypter) : SslRead → Option Decrypter
  | .decrypted bytes =>
      if bytes ≠ [] ∧ bytes.length ≤ decryptBufSize then
        s.buffers.pointer.map fun buffer =>
          let buffers := s.buffers.write buffer (memcpy (s.buffers.memory buffer) 0 bytes)
          { s with buffers }.receive bytes.length
      else none
  | .nothing => some { s with phase := .resting }
  | .failed => some { s with phase := .failing }

def step (s : Decrypter) : DecrypterEvent → Option Decrypter
  | .readFromSsl => if s.phase = .resting then some { s with phase := .reading } else none
  | .sslRead result => if s.phase = .reading then s.sslRead result else none
  | .leave =>
      match s.phase with
      | .receiving decryptedSize prevUseCount =>
          some (s.finishReceive decryptedSize prevUseCount)
      | .failing => some { s with phase := .resting }
      | _ => none
  | .use u => (s.buffers.use u).map fun buffers => { s with buffers }

/-- There is always a buffer, and before a callback it is not shared. -/
structure Sound (s : Decrypter) : Prop where
  separate : s.buffers.Separate Delivery.Unchanged
  buffer : s.buffers.pointer ≠ none
  phase : match s.phase with
    | .receiving _ prevUseCount => prevUseCount = 1
    | _ => s.buffers.argument = none

variable {s s' : Decrypter}

theorem sound_start : Sound {} where
  separate := ChunkBuffers.separate_empty.allocate rfl
  buffer h := by cases h
  phase := rfl

theorem Sound.receive (h : s.Sound) (hno : s.buffers.argument = none) (decryptedSize : Nat) :
    (s.receive decryptedSize).Sound := by
  obtain ⟨buffer, hpointer⟩ := Option.ne_none_iff_exists'.mp h.buffer
  rw [Decrypter.receive, hpointer]
  exact ⟨h.separate.deliver hpointer rfl, h.buffer, h.separate.pointerCount_eq_one hno hpointer⟩

theorem Sound.finishReceive (h : s.Sound) {decryptedSize prevUseCount : Nat}
    (hphase : s.phase = .receiving decryptedSize prevUseCount) :
    (s.finishReceive decryptedSize prevUseCount).Sound := by
  have hprev := h.phase
  rw [hphase] at hprev
  obtain rfl : prevUseCount = 1 := hprev
  rw [Decrypter.finishReceive]
  split
  · exact ⟨h.separate.giveUp.allocate rfl, (fun hnone => by cases hnone), rfl⟩
  · rename_i hsame
    exact ⟨h.separate.reuse (not_not.mp hsame).symm, h.buffer, rfl⟩

theorem Sound.sslRead (h : s.Sound) (hphase : s.phase = .reading) {result : SslRead}
    (hread : s.sslRead result = some s') : s'.Sound := by
  have hno : s.buffers.argument = none := by
    have hno := h.phase
    rwa [hphase] at hno
  cases result with
  | decrypted bytes =>
      rw [Decrypter.sslRead] at hread
      split at hread
      · obtain ⟨buffer, hpointer, rfl⟩ := Option.map_eq_some_iff.mp hread
        have hwritten : Sound
            { s with
              buffers := s.buffers.write buffer (memcpy (s.buffers.memory buffer) 0 bytes) } := by
          refine ⟨h.separate.write hno hpointer _, h.buffer, ?_⟩
          dsimp only
          rw [hphase]
          exact hno
        exact hwritten.receive hno bytes.length
      · cases hread
  | nothing =>
      cases hread
      exact ⟨h.separate, h.buffer, hno⟩
  | failed =>
      cases hread
      exact ⟨h.separate, h.buffer, hno⟩

theorem Sound.use (h : s.Sound) {u : Use} {buffers : ChunkBuffers}
    (huse : s.buffers.use u = some buffers) : Sound { s with buffers } := by
  obtain ⟨kept, rfl, _, _⟩ := SharedBuffers.use_subset huse
  exact ⟨h.separate.use huse, h.buffer, h.phase⟩

theorem Sound.step (h : s.Sound) {e : DecrypterEvent} (hstep : s.step e = some s') : s'.Sound := by
  cases e with
  | readFromSsl =>
      rw [Decrypter.step] at hstep
      split at hstep
      · rename_i hrest
        cases hstep
        have hno := h.phase
        rw [hrest] at hno
        exact ⟨h.separate, h.buffer, hno⟩
      · cases hstep
  | sslRead result =>
      rw [Decrypter.step] at hstep
      split at hstep
      · rename_i hphase
        exact h.sslRead hphase hstep
      · cases hstep
  | leave =>
      rw [Decrypter.step] at hstep
      split at hstep
      · rename_i decryptedSize prevUseCount hphase
        cases hstep
        exact h.finishReceive hphase
      · rename_i hphase
        cases hstep
        have hno := h.phase
        rw [hphase] at hno
        exact ⟨h.separate, h.buffer, hno⟩
      · cases hstep
  | use u =>
      obtain ⟨buffers, huse, rfl⟩ := Option.map_eq_some_iff.mp hstep
      exact h.use huse

def Outside (s : Decrypter) : Prop := ∀ decryptedSize prevUseCount,
  s.phase ≠ .receiving decryptedSize prevUseCount

theorem Sound.argument_eq_none (h : s.Sound) (hout : s.Outside) : s.buffers.argument = none := by
  have hphase := h.phase
  split at hphase
  · rename_i heq
    exact absurd heq (hout _ _)
  · exact hphase

end Decrypter

/-- In every run of reads and of what the user does with chunks, no kept chunk lies in the buffer
that libuv or `SSL_read` may write to, all kept chunks show the bytes that they were delivered with,
and outside the receive callback the library's pointer is the only reference to its buffer. -/
theorem kept_chunks_unchanged :
    (∀ (es : List ReaderEvent) (s : StreamReader), exec StreamReader.step {} es = some s →
      (∀ base len, s.handed = some (base, len) → ∀ c ∈ s.buffers.kept, c.1 ≠ base) ∧
      (∀ c ∈ s.buffers.kept, c.2.Unchanged (s.buffers.memory c.1)) ∧
      (s.receiving = none →
        ∀ buffer, s.buffers.pointer = some buffer → s.buffers.useCount buffer = 1)) ∧
    (∀ (es : List DecrypterEvent) (s : Decrypter), exec Decrypter.step {} es = some s →
      (s.phase = .reading →
        ∀ buffer, s.buffers.pointer = some buffer → ∀ c ∈ s.buffers.kept, c.1 ≠ buffer) ∧
      (∀ c ∈ s.buffers.kept, c.2.Unchanged (s.buffers.memory c.1)) ∧
      (s.Outside →
        ∀ buffer, s.buffers.pointer = some buffer → s.buffers.useCount buffer = 1)) := by
  constructor
  · intro es s hexec
    have h : s.Sound :=
      exec_invariant (fun _ _ _ h hstep => h.step hstep) StreamReader.sound_start hexec
    refine ⟨fun base len hhanded => ?_, fun c hc => (h.separate.mem_kept hc).1, fun hrest => ?_⟩
    · have hrest : s.receiving = none := by
        by_contra hreceiving
        obtain ⟨⟨nread, prevUseCount⟩, hsome⟩ := Option.ne_none_iff_exists'.mp hreceiving
        cases (h.receiving nread prevUseCount hsome).2.symm.trans hhanded
      exact h.separate.apart (h.resting hrest) base (h.handed base len hhanded)
    · exact fun buffer hpointer => h.separate.useCount_eq_one (h.resting hrest) hpointer
  · intro es s hexec
    have h : s.Sound :=
      exec_invariant (fun _ _ _ h hstep => h.step hstep) Decrypter.sound_start hexec
    refine ⟨fun hphase => ?_, fun c hc => (h.separate.mem_kept hc).1, fun hout => ?_⟩
    · have hout : s.Outside := fun _ _ hr => by cases hphase.symm.trans hr
      exact h.separate.apart (h.argument_eq_none hout)
    · exact fun buffer hpointer =>
        h.separate.useCount_eq_one (h.argument_eq_none hout) hpointer

/-- Two reads: the first chunk is copied twice and one copy is dropped in the callback, so the
second read needs another buffer. -/
def twoReads : List ReaderEvent :=
  [.allocReadBuffer 4, .onRead [1, 2] true, .use .keep, .use (.copy 0), .use (.drop 0), .leave,
    .allocReadBuffer 4, .onRead [3] true, .leave]

theorem kept_chunks_unchanged_twoReads : ∃ s, exec StreamReader.step {} twoReads = some s ∧
    s.buffers.kept = [(0, { size := 2, offset := 0, bytes := [1, 2] })] ∧
    s.buffers.pointer = some 1 ∧ content (s.buffers.memory 0) 2 = [1, 2] := by
  have hrun : ∃ s ∈ exec StreamReader.step {} twoReads,
      s.buffers.kept = [(0, { size := 2, offset := 0, bytes := [1, 2] })] ∧
        s.buffers.pointer = some 1 := by
    decide +kernel
  obtain ⟨s, hexec, hkept, hpointer⟩ := hrun
  refine ⟨s, hexec, hkept, hpointer, ?_⟩
  exact (kept_chunks_unchanged.1 twoReads s hexec).2.1 (0, _)
    (by rw [hkept]; exact List.mem_singleton_self _)

end TarmIo.Net
