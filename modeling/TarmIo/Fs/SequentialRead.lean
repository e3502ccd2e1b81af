import Mathlib.Algebra.Ring.Nat
import TarmIo.Fs.BufferPool
import TarmIo.Fs.Reopen

/-!
# One sequential read of a file

A `read` with an end callback on a file that was just opened, and that is neither closed nor read
otherwise meanwhile. The file does not change, libuv takes every read and returns at least one byte
before the end. The user keeps and drops chunks at any time. `FileRead` are the events of such a
run, and `InOrder` is what holds in it, unless an earlier read of the object has completed while it
was not open: then `m_read_in_progress` is still set, and nothing is read.
-/

namespace TarmIo.Fs

open Foundation

def Span.bytes (content : List UInt8) (span : Span) : List UInt8 :=
  (content.drop span.position).take span.size

namespace File

def chunksFrom (callback registeredIn descriptor : Nat) : Nat → List Nat → List Delivery
  | _, [] => []
  | offset, size :: sizes =>
      ⟨callback, registeredIn, ⟨⟨descriptor, offset, size⟩, offset⟩⟩ ::
        chunksFrom callback registeredIn descriptor (offset + size) sizes

def endCalls (callback : Nat) (calls : List Call) : Nat := calls.count (.endRead callback)

/-- The events of the run: reads of this content, and chunks that are kept and dropped. -/
def FileRead (content : List UInt8) (s : File) : Event → Prop
  | .call .keep none | .call (.release _) none | .leave none => True
  | .loop (.readDone _ (.data size)) none =>
      ∀ descriptor ∈ s.fileHandle, s.position descriptor + size ≤ content.length
  | .loop (.readDone _ .endOfFile) none =>
      ∀ descriptor ∈ s.fileHandle, s.position descriptor = content.length
  | _ => False

instance (content : List UInt8) (s : File) (e : Event) : Decidable (FileRead content s e) := by
  unfold FileRead
  split <;> infer_instance

/-- A file that was just opened, with no buffer in use. The open callback may still run. -/
structure FreshlyOpened (descriptor : Nat) (s : File) : Prop where
  isOpen : s.fileHandle = some descriptor
  notClosing : s.state ≠ .closing
  offset : s.currentOffset = 0
  position : s.position descriptor = 0
  buffers : ∀ i, (s.buffers i).isFree = true ∧ (s.buffers i).hasBuf = false
  reads : s.reads = []
  held : s.held = []
  blocking : s.blocking = 0
  running : s.running = none ∨ s.running = some .opened

structure InOrder (content : List UInt8) (callback endReadCallback : Nat) (start s : File)
    (chunks : List Delivery) : Prop where
  toCallback : ∀ c ∈ chunks, c.callback = callback
  sizes : ∀ c ∈ chunks, 0 < c.chunk.span.size ∧
    (c.chunk.span.bytes content).length = c.chunk.span.size
  isPrefix : (chunks.flatMap fun c => c.chunk.span.bytes content) <+: content
  offsets : ∀ n c, chunks[n]? = some c →
    c.chunk.offset = ((chunks.take n).map fun c => c.chunk.span.size).sum
  buffers : ∀ i, (s.buffers i).isFree = false → i < readBufsNum
  oneRead : s.reads.length ≤ 1
  held : ∀ k ∈ s.held, (∃ c ∈ chunks, c.chunk.span = k.span) ∧
    (s.buffers k.buffer).content = some k.span
  blocking : s.blocking = inUse s.buffers
  awake : s.running = none →
    endCalls endReadCallback s.calls = endCalls endReadCallback start.calls →
    s.freeBuffer ≠ none → s.reads ≠ []
  endAtMostOnce : endCalls endReadCallback s.calls ≤ endCalls endReadCallback start.calls + 1
  endAfterAll : endCalls endReadCallback s.calls = endCalls endReadCallback start.calls + 1 →
    (chunks.flatMap fun c => c.chunk.span.bytes content) = content
  completions : s.completed.length ≤ start.completed.length + content.length + 1

/-! ## Chunks -/

section Chunks

variable (callback registeredIn descriptor : Nat)

theorem chunksFrom_append (offset : Nat) (sizes : List Nat) (size : Nat) :
    chunksFrom callback registeredIn descriptor offset (sizes ++ [size]) =
      chunksFrom callback registeredIn descriptor offset sizes ++
        [⟨callback, registeredIn,
          ⟨⟨descriptor, offset + sizes.sum, size⟩, offset + sizes.sum⟩⟩] := by
  induction sizes generalizing offset with
  | nil => simp [chunksFrom]
  | cons n sizes ih => simp [chunksFrom, ih, Nat.add_assoc]

theorem map_size_chunksFrom (offset : Nat) (sizes : List Nat) :
    (chunksFrom callback registeredIn descriptor offset sizes).map (fun c => c.chunk.span.size) =
      sizes := by
  induction sizes generalizing offset with
  | nil => rfl
  | cons n sizes ih => simp [chunksFrom, ih]

/-- The chunks are the bytes from the offset on. -/
theorem flatMap_bytes_chunksFrom (content : List UInt8) (offset : Nat) (sizes : List Nat) :
    ((chunksFrom callback registeredIn descriptor offset sizes).flatMap fun c =>
      c.chunk.span.bytes content) = (content.drop offset).take sizes.sum := by
  induction sizes generalizing offset with
  | nil => simp [chunksFrom]
  | cons n sizes ih =>
      rw [chunksFrom, List.flatMap_cons, ih, List.sum_cons, List.take_add, List.drop_drop]
      rfl

theorem offset_chunksFrom (offset : Nat) (sizes : List Nat) (n : Nat) (c : Delivery)
    (hc : (chunksFrom callback registeredIn descriptor offset sizes)[n]? = some c) :
    c.chunk.offset = offset + (sizes.take n).sum := by
  induction sizes generalizing offset n with
  | nil => simp [chunksFrom] at hc
  | cons size sizes ih =>
      cases n with
      | zero =>
          simp only [chunksFrom, List.getElem?_cons_zero, Option.some.injEq] at hc
          rw [← hc]
          rfl
      | succ n =>
          rw [ih (offset + size) n hc, List.take_succ_cons, List.sum_cons, Nat.add_assoc]

/-- Each chunk is a part of the content. -/
theorem mem_chunksFrom {content : List UInt8} {offset : Nat} {sizes : List Nat}
    (hpos : ∀ size ∈ sizes, 0 < size) (hle : offset + sizes.sum ≤ content.length) {c : Delivery}
    (hc : c ∈ chunksFrom callback registeredIn descriptor offset sizes) :
    c.callback = callback ∧ 0 < c.chunk.span.size ∧
      (c.chunk.span.bytes content).length = c.chunk.span.size := by
  induction sizes generalizing offset with
  | nil => cases hc
  | cons size sizes ih =>
      rw [List.sum_cons] at hle
      rcases List.mem_cons.mp hc with rfl | hc
      · refine ⟨rfl, hpos size List.mem_cons_self, ?_⟩
        simp only [Span.bytes, List.length_take, List.length_drop]
        omega
      · exact ih (fun n hn => hpos n (List.mem_cons_of_mem _ hn)) (by omega) hc

end Chunks

/-! ## The invariant -/

namespace Unread

/-- The buffer that `on_read` has, with its bytes. -/
def own (descriptor : Nat) (u : Unread) : Option Held :=
  match u.running with
  | some (.delivered i size) => some ⟨i, ⟨descriptor, u.currentOffset, size⟩⟩
  | some (.ended i) => some ⟨i, ⟨descriptor, u.currentOffset, 0⟩⟩
  | _ => none

def coming (u : Unread) : Nat :=
  match u.running with
  | some (.delivered _ size) => size
  | _ => 0

end Unread

structure Progress (content : List UInt8) (descriptor callback endReadCallback : Nat)
    (start : File) (sizes : List Nat) (u : Unread) : Prop where
  readsTo : u.readCallback = some callback
  endsTo : u.endReadCallback = some endReadCallback
  frames : ∀ frame ∈ u.running, frame = .opened ∨
    (∃ i size before, frame = .delivered i size ∧ u.doneRead = false ∧ sizes = before ++ [size]) ∨
    ∃ i, frame = .ended i ∧ u.doneRead = true
  position : sizes.sum = u.position descriptor
  positive : ∀ size ∈ sizes, 0 < size
  offset : u.currentOffset + u.coming = u.position descriptor
  le : u.position descriptor ≤ content.length
  done : u.doneRead = true → u.position descriptor = content.length
  chunks : u.calls.filterMap Call.delivery =
    start.deliveries ++ chunksFrom callback u.registeredIn descriptor 0 sizes
  ends : endCalls endReadCallback u.calls =
    endCalls endReadCallback start.calls + u.doneRead.toNat
  completed : u.completed.length ≤
    start.completed.length + u.position descriptor + u.doneRead.toNat
  held : ∀ k ∈ u.held,
    ∃ c ∈ chunksFrom callback u.registeredIn descriptor 0 sizes, c.chunk.span = k.span

structure ReadingOn (content : List UInt8) (descriptor callback endReadCallback : Nat)
    (start : File) (sizes : List Nat) (s : File) : Prop where
  ready : Ready descriptor callback s
  pooled : Pooled (s.unread.own descriptor) s
  progress : Progress content descriptor callback endReadCallback start sizes s.unread
  awake : s.doneRead = false → s.unread.own descriptor = none → s.freeBuffer ≠ none → s.reads ≠ []
  done : s.doneRead = true → s.reads = []

section Steps

variable {content : List UInt8} {descriptor callback endReadCallback : Nat} {start : File}
variable {u : Unread} {s : File} {i size : Nat} {r : ReadRequest}

  {sizes : List Nat}

theorem readingOn_read (h : FreshlyOpened descriptor start) (hflag : start.readInProgress = false)
    (content : List UInt8) (callback endReadCallback : Nat) :
    ReadingOn content descriptor callback endReadCallback start []
      (start.read (some callback) (some endReadCallback) none) := by
  have hpool : Pooled none
      { start with
        readCallback := some callback
        endReadCallback := some endReadCallback
        doneRead := false
        registeredIn := start.opens
        readOwner := some callback } := by
    refine ⟨?_, ?_, ?_, ?_, ?_, ?_⟩
    · simp [h.buffers, h.held]
    · simp [h.buffers, h.reads]
    · simp [h.buffers]
    · simp [h.reads]
    · simp [h.held]
    · simp [h.blocking, inUse, h.buffers]
  obtain ⟨s, heq, hsame, hready, hpooled, hawake⟩ := scheduleRead_spec (s :=
      { start with
        readCallback := some callback
        endReadCallback := some endReadCallback
        doneRead := false
        registeredIn := start.opens
        readOwner := some callback })
    ⟨h.isOpen, h.notClosing, rfl, by simp [hflag, h.reads], by simp [h.reads]⟩ hpool
  have hread : start.read (some callback) (some endReadCallback) none = s := by
    unfold File.read
    rw [if_neg (by simp [File.isOpen, h.isOpen]), heq]
  have hown : s.unread.own descriptor = none := by
    rw [hsame]
    rcases h.running with hr | hr <;> simp [Unread.own, unread, hr]
  rw [hread]
  refine ⟨hready, by rwa [hown], ?_, fun _ _ => hawake, ?_⟩
  · rw [hsame]
    exact
      { readsTo := rfl
        endsTo := rfl
        frames := by rcases h.running with hr | hr <;> simp [unread, hr]
        position := h.position.symm
        positive := by simp
        offset := by
          rcases h.running with hr | hr <;>
            simp [Unread.coming, unread, hr, h.offset, h.position]
        le := by simp [unread, h.position]
        done := by simp [unread]
        chunks := by simp [unread, chunksFrom, deliveries]
        ends := by simp [unread]
        completed := by simp [unread]
        held := by simp [unread, h.held] }
  · have hdone : s.doneRead = false := congrArg Unread.doneRead hsame
    simp [hdone]

theorem Progress.of_held {u : Unread}
    (h : Progress content descriptor callback endReadCallback start sizes u) {held : List Held}
    (hheld : ∀ k ∈ held,
      ∃ c ∈ chunksFrom callback u.registeredIn descriptor 0 sizes, c.chunk.span = k.span) :
    Progress content descriptor callback endReadCallback start sizes { u with held := held } :=
  { h with held := hheld }

theorem Progress.leave (h : Progress content descriptor callback endReadCallback start sizes u) :
    Progress content descriptor callback endReadCallback start sizes
      { u with running := none, currentOffset := u.currentOffset + u.coming } :=
  { h with
    frames := by simp
    offset := h.offset }

theorem own_delivered (h : s.running = some (.delivered i size)) (descriptor : Nat) :
    s.unread.own descriptor = some ⟨i, ⟨descriptor, s.currentOffset, size⟩⟩ := by
  simp [Unread.own, unread, h]

theorem own_ended {i : Nat} (h : s.running = some (.ended i)) (descriptor : Nat) :
    s.unread.own descriptor = some ⟨i, ⟨descriptor, s.currentOffset, 0⟩⟩ := by
  simp [Unread.own, unread, h]

theorem own_none (h : s.running = none) (descriptor : Nat) : s.unread.own descriptor = none := by
  simp [Unread.own, unread, h]

theorem Progress.mem_delivered
    (h : Progress content descriptor callback endReadCallback start sizes u)
    (hrun : u.running = some (.delivered i size)) :
    ∃ c ∈ chunksFrom callback u.registeredIn descriptor 0 sizes,
      c.chunk.span = ⟨descriptor, u.currentOffset, size⟩ := by
  rcases h.frames _ hrun with heq | ⟨i', size', before, heq, -, hsizes⟩ | ⟨i', heq, -⟩
  · cases heq
  · cases heq
    have hoffset : before.sum = u.currentOffset := by
      have hposition := h.position
      have hplace := h.offset
      simp only [Unread.coming, hrun] at hplace
      rw [hsizes, List.sum_append, List.sum_singleton] at hposition
      omega
    rw [hsizes, chunksFrom_append]
    exact ⟨_, List.mem_append_right _ (List.mem_singleton_self _), by simp [hoffset]⟩
  · cases heq

/-- `on_read` has given its buffer back, and no callback runs. -/
theorem ReadingOn.of_givenBack {s s' : File}
    (hprogress : Progress content descriptor callback endReadCallback start sizes s.unread)
    (hrun : s.running = none) (hsame : s'.unread = s.unread)
    (hgiven : GivenBack descriptor callback none s s')
    (hawake : s.doneRead = false → s.freeBuffer ≠ none → s.reads ≠ [])
    (hdone : s.doneRead = true → s.reads = []) :
    ReadingOn content descriptor callback endReadCallback start sizes s' := by
  have hown : s'.unread.own descriptor = none := by
    rw [hsame]
    exact own_none hrun descriptor
  have hflag : s'.doneRead = s.doneRead := congrArg Unread.doneRead hsame
  refine ⟨hgiven.ready, by rw [hown]; exact hgiven.pooled, by rwa [hsame], ?_, ?_⟩
  · rw [hflag]
    exact fun hd _ => hgiven.awake hd (hawake hd)
  · rw [hflag]
    exact fun hd => (hgiven.done hd).trans (hdone hd)

section

variable (h : ReadingOn content descriptor callback endReadCallback start sizes s)
include h

theorem ReadingOn.keep {span : Span} (hrun : s.running = some (.delivered i size))
    (hcontent : (s.buffers i).content = some span) :
    ReadingOn content descriptor callback endReadCallback start sizes
      { s with held := s.held ++ [⟨i, span⟩] } := by
  have hown := own_delivered hrun descriptor
  have hpool := h.pooled
  rw [hown] at hpool
  have hspan : span = ⟨descriptor, s.currentOffset, size⟩ :=
    Option.some.inj (hcontent.symm.trans (hpool.content _ (.inr rfl)))
  refine ⟨⟨h.ready.isOpen, h.ready.notClosing, h.ready.owner, h.ready.flag, h.ready.source⟩, ?_, ?_,
    h.awake, h.done⟩
  · change Pooled (s.unread.own descriptor) _
    rw [hown, hspan]
    exact hpool.keep
  · refine h.progress.of_held ?_
    intro k hk
    rcases List.mem_append.mp hk with hk | hk
    · exact h.progress.held k hk
    · rw [List.mem_singleton.mp hk, hspan]
      exact h.progress.mem_delivered hrun

theorem ReadingOn.release {index : Nat} {k : Held} (hindex : s.held[index]? = some k) :
    ReadingOn content descriptor callback endReadCallback start sizes
      (s.release index k.buffer none) := by
  obtain ⟨hsame, hgiven⟩ := release_spec h.ready h.pooled hindex
  have hown : (s.release index k.buffer none).unread.own descriptor = s.unread.own descriptor := by
    rw [hsame]
    rfl
  have hdone : (s.release index k.buffer none).doneRead = s.doneRead :=
    congrArg Unread.doneRead hsame
  refine ⟨hgiven.ready, by rw [hown]; exact hgiven.pooled, ?_, ?_, ?_⟩
  · rw [hsame]
    exact h.progress.of_held fun k' hk => h.progress.held k' (List.mem_of_mem_eraseIdx hk)
  · rw [hdone, hown]
    exact fun hd ho => hgiven.awake hd (h.awake hd ho)
  · rw [hdone]
    exact fun hd => (hgiven.done hd).trans (h.done hd)

/-- After the read callback the next read is started, and then the buffer is given back. -/
theorem ReadingOn.leave_delivered (hrun : s.running = some (.delivered i size)) :
    ReadingOn content descriptor callback endReadCallback start sizes
      ({ s with running := none, currentOffset := s.currentOffset + size }.continueReading i
        none) := by
  have hready : Ready descriptor callback
      { s with running := none, currentOffset := s.currentOffset + size } :=
    ⟨h.ready.isOpen, h.ready.notClosing, h.ready.owner, h.ready.flag, h.ready.source⟩
  have hpool : Pooled (some ⟨i, ⟨descriptor, s.currentOffset, size⟩⟩)
      { s with running := none, currentOffset := s.currentOffset + size } := by
    have hpooled := h.pooled
    rwa [own_delivered hrun] at hpooled
  have hprogress : Progress content descriptor callback endReadCallback start sizes
      { s with running := none, currentOffset := s.currentOffset + size }.unread := by
    have hleave := h.progress.leave
    have hcoming : s.unread.coming = size := by simp [Unread.coming, unread, hrun]
    rwa [hcoming] at hleave
  have hdone : s.doneRead = false := by
    rcases h.progress.frames _ hrun with heq | ⟨i', size', before, heq, hdone, -⟩ | ⟨i', heq, -⟩
    · cases heq
    · exact hdone
    · cases heq
  obtain ⟨t, heq, hsame, hready', hpool', hawake⟩ := scheduleRead_spec hready hpool
  obtain ⟨hsame', hgiven⟩ := endWithReset_spec hready' hpool'
  have hdone' : t.doneRead = false := (congrArg Unread.doneRead hsame).trans hdone
  rw [continueReading, heq]
  exact ReadingOn.of_givenBack (by rwa [hsame]) (congrArg Unread.running hsame) hsame' hgiven
    (fun _ => hawake) (by simp [hdone'])

theorem ReadingOn.leave_ended {i : Nat} (hrun : s.running = some (.ended i)) :
    ReadingOn content descriptor callback endReadCallback start sizes
      ({ s with running := none }.endWithReset i none) := by
  have hpool : Pooled (some ⟨i, ⟨descriptor, s.currentOffset, 0⟩⟩) { s with running := none } := by
    have hpooled := h.pooled
    rwa [own_ended hrun] at hpooled
  have hprogress : Progress content descriptor callback endReadCallback start sizes
      { s with running := none }.unread := by
    have hleave := h.progress.leave
    have hcoming : s.unread.coming = 0 := by simp [Unread.coming, unread, hrun]
    rwa [hcoming] at hleave
  have hdone : s.doneRead = true := by
    rcases h.progress.frames _ hrun with heq | ⟨i', size', before, heq, -⟩ | ⟨i', heq, hdone⟩
    · cases heq
    · cases heq
    · exact hdone
  obtain ⟨hsame, hgiven⟩ := endWithReset_spec
    (⟨h.ready.isOpen, h.ready.notClosing, h.ready.owner, h.ready.flag, h.ready.source⟩ :
      Ready descriptor callback { s with running := none }) hpool
  exact ReadingOn.of_givenBack hprogress rfl hsame hgiven (by simp [hdone]) h.done

theorem ReadingOn.leave_opened (hrun : s.running = some .opened) :
    ReadingOn content descriptor callback endReadCallback start sizes
      { s with running := none }.leaveOpen := by
  have hown : s.unread.own descriptor = none := by simp [Unread.own, unread, hrun]
  have hprogress : Progress content descriptor callback endReadCallback start sizes
      { s with running := none }.unread := by
    have hleave := h.progress.leave
    have hcoming : s.unread.coming = 0 := by simp [Unread.coming, unread, hrun]
    rwa [hcoming] at hleave
  have hpool := h.pooled
  rw [hown] at hpool
  exact ⟨⟨h.ready.isOpen, h.ready.notClosing, h.ready.owner, h.ready.flag, h.ready.source⟩, hpool,
    hprogress, fun hd _ => h.awake hd hown, h.done⟩

/-- The state in which `on_read` finds the buffer of the read that completes. -/
theorem ReadingOn.landed (hrun : s.running = none) (hr : r ∈ s.reads) (outcome : ReadOutcome) :
    ∃ i, r.kind = .sequential i ∧ s.reads = [r] ∧ r.descriptor = descriptor ∧
      Pooled (some ⟨i, ⟨descriptor, s.currentOffset, outcome.size⟩⟩)
        ((s.takeRead r outcome).landRead r i outcome) := by
  obtain ⟨honly, i, hi, -⟩ := h.pooled.reads r hr
  have hdescriptor := h.ready.source r hr
  have hplace : s.currentOffset = s.position descriptor := by
    have hoffset := h.progress.offset
    have hcoming : s.unread.coming = 0 := by simp [Unread.coming, unread, hrun]
    rwa [hcoming, Nat.add_zero] at hoffset
  have hpool := h.pooled
  rw [own_none hrun, Pooled, honly] at hpool
  have hland := hpool.land hi ⟨descriptor, s.currentOffset, outcome.size⟩
  refine ⟨i, hi, honly, hdescriptor, ?_⟩
  simpa [Pooled, takeRead, File.landRead, onBuffer, spanOf, honly, hdescriptor, hplace] using hland

end

/-- `on_read` with data: the read callback is called. -/
theorem finishRead_data {i size callback descriptor : Nat} (hi : r.kind = .sequential i)
    (hopen : s.fileHandle = some descriptor) (hcallback : s.readCallback = some callback) :
    s.finishRead r (.data size) none =
      { ({ (s.takeRead r (.data size)).landRead r i (.data size) with
            readInProgress := false } : File).callRead callback
          (some { span := s.spanOf r (.data size), offset := s.currentOffset }) {} (some r) with
        running := some (.delivered i size) } := by
  have hisOpen : ((s.takeRead r (.data size)).landRead r i (.data size)).isOpen = true :=
    congrArg Option.isSome hopen
  have hread : ((s.takeRead r (.data size)).landRead r i (.data size)).readCallback =
      some callback := hcallback
  unfold finishRead
  rw [hi]
  dsimp only
  unfold onRead
  rw [if_neg (by simp [hisOpen])]
  dsimp only
  split
  next hnull => cases hread.symm.trans hnull
  next hsome =>
    cases hread.symm.trans hsome
    rfl

theorem finishRead_endOfFile {i callback descriptor : Nat} (hi : r.kind = .sequential i)
    (hopen : s.fileHandle = some descriptor) (hcallback : s.endReadCallback = some callback) :
    s.finishRead r .endOfFile none =
      { ({ (s.takeRead r .endOfFile).landRead r i .endOfFile with
            readInProgress := false, doneRead := true } : File).log (.endRead callback) with
        running := some (.ended i) } := by
  have hisOpen : ((s.takeRead r .endOfFile).landRead r i .endOfFile).isOpen = true :=
    congrArg Option.isSome hopen
  have hread : ((s.takeRead r .endOfFile).landRead r i .endOfFile).endReadCallback =
      some callback := hcallback
  unfold finishRead
  rw [hi]
  dsimp only
  unfold onRead
  rw [if_neg (by simp [hisOpen])]
  dsimp only
  split
  next hnull => cases hread.symm.trans hnull
  next hsome =>
    cases hread.symm.trans hsome
    rfl

section

variable (h : Progress content descriptor callback endReadCallback start sizes u)
  (hrun : u.running = none)
include h hrun

theorem Progress.place : u.currentOffset = u.position descriptor := by
  have hoffset := h.offset
  have hcoming : u.coming = 0 := by simp [Unread.coming, hrun]
  rwa [hcoming, Nat.add_zero] at hoffset

theorem Progress.data (hdone : u.doneRead = false) (i : Nat) {size : Nat} (hsize : 0 < size)
    (hle : u.position descriptor + size ≤ content.length) (error : Error)
    (request : Option ReadRequest) (completion : Completion) :
    Progress content descriptor callback endReadCallback start (sizes ++ [size])
      { u with
        running := some (.delivered i size)
        position := Function.update u.position descriptor (u.position descriptor + size)
        calls := u.calls ++ [.read callback u.registeredIn
          (some ⟨⟨descriptor, u.position descriptor, size⟩, u.currentOffset⟩) error request]
        completed := u.completed ++ [completion] } where
  readsTo := h.readsTo
  endsTo := h.endsTo
  frames := by
    intro frame hframe
    cases hframe
    exact .inr (.inl ⟨i, size, sizes, rfl, hdone, rfl⟩)
  position := by
    simp [h.position]
  positive := by
    intro n hn
    rcases List.mem_append.mp hn with hn | hn
    · exact h.positive n hn
    · rw [List.mem_singleton.mp hn]
      exact hsize
  offset := by
    simp [Unread.coming, h.place hrun]
  le := by
    simpa using hle
  done := by simp [hdone]
  chunks := by
    rw [List.filterMap_append, h.chunks, chunksFrom_append, h.position, h.place hrun]
    simp [Call.delivery]
  ends := by
    simpa [endCalls] using h.ends
  completed := by
    have hcompleted := h.completed
    simp only [List.length_append, List.length_singleton, Function.update_self]
    omega
  held := by
    intro k hk
    obtain ⟨c, hc, hspan⟩ := h.held k hk
    rw [chunksFrom_append]
    exact ⟨c, List.mem_append_left _ hc, hspan⟩

theorem Progress.end (hdone : u.doneRead = false) (i : Nat)
    (hend : u.position descriptor = content.length) (completion : Completion) :
    Progress content descriptor callback endReadCallback start sizes
      { u with
        running := some (.ended i)
        doneRead := true
        calls := u.calls ++ [.endRead endReadCallback]
        completed := u.completed ++ [completion] } where
  readsTo := h.readsTo
  endsTo := h.endsTo
  frames := by simp
  position := h.position
  positive := h.positive
  offset := by simp [Unread.coming, h.place hrun]
  le := h.le
  done := fun _ => hend
  chunks := by simpa [List.filterMap_cons, Call.delivery] using h.chunks
  ends := by
    have hends := h.ends
    simp only [hdone, Bool.toNat_false, Nat.add_zero] at hends
    simpa [endCalls] using hends
  completed := by
    have hcompleted := h.completed
    simp only [hdone, Bool.toNat_false] at hcompleted
    simp only [List.length_append, List.length_singleton, Bool.toNat_true]
    omega
  held := h.held

end

section

variable (h : ReadingOn content descriptor callback endReadCallback start sizes s)
include h

theorem ReadingOn.not_done (hr : r ∈ s.reads) : s.doneRead = false := by
  by_contra hdone
  rw [h.done (by simpa using hdone)] at hr
  cases hr

theorem ReadingOn.data (hrun : s.running = none) (hr : r ∈ s.reads) {size : Nat}
    (hsize : 0 < size) (hle : s.position descriptor + size ≤ content.length) :
    ReadingOn content descriptor callback endReadCallback start (sizes ++ [size])
      (s.finishRead r (.data size) none) := by
  obtain ⟨i, hi, honly, hdescriptor, hpool⟩ := h.landed hrun hr (.data size)
  have hnone : s.reads.erase r = [] := by simp [honly]
  have hp := h.progress.data hrun (h.not_done hr) i hsize hle {} (some r)
    ⟨r, .data size, s.isOpen⟩
  rw [finishRead_data hi h.ready.isOpen h.progress.readsTo]
  subst hdescriptor
  refine ⟨⟨h.ready.isOpen, h.ready.notClosing, h.ready.owner, ?_, ?_⟩, hpool, hp, ?_, ?_⟩
  · simp [callRead, log, File.landRead, onBuffer, takeRead, hnone]
  · simp [callRead, log, File.landRead, onBuffer, takeRead, hnone]
  · intro _ hown
    cases hown
  · exact fun _ => hnone

theorem ReadingOn.end (hrun : s.running = none) (hr : r ∈ s.reads)
    (hend : s.position descriptor = content.length) :
    ReadingOn content descriptor callback endReadCallback start sizes
      (s.finishRead r .endOfFile none) := by
  obtain ⟨i, hi, honly, hdescriptor, hpool⟩ := h.landed hrun hr .endOfFile
  have hnone : s.reads.erase r = [] := by simp [honly]
  have hp := h.progress.end hrun (h.not_done hr) i hend ⟨r, .endOfFile, s.isOpen⟩
  rw [finishRead_endOfFile hi h.ready.isOpen h.progress.endsTo]
  refine ⟨⟨h.ready.isOpen, h.ready.notClosing, h.ready.owner, ?_, ?_⟩, hpool, ?_, ?_, ?_⟩
  · simp [log, File.landRead, onBuffer, takeRead, hnone]
  · simp [log, File.landRead, onBuffer, takeRead, hnone]
  · simpa [unread, log, File.landRead, takeRead, onBuffer, ReadOutcome.size] using hp
  · intro _ hown
    cases hown
  · exact fun _ => hnone

/-- Each event of the run keeps the invariant, with one more chunk after data. -/
theorem ReadingOn.step {s' : File} {e : Event}
    (hstep : restrict (FileRead content) File.step s e = some s') :
    ∃ sizes', ReadingOn content descriptor callback endReadCallback start sizes' s' := by
  obtain ⟨hdomain, hstep⟩ := restrict_eq_some.mp hstep
  unfold FileRead at hdomain
  split at hdomain
  · rw [step_call] at hstep
    obtain ⟨i, size, span, hrun, hcontent, rfl⟩ := userCall_keep_eq_some.mp hstep
    exact ⟨sizes, h.keep hrun hcontent⟩
  · obtain ⟨k, hindex, rfl⟩ := userCall_release_eq_some.mp hstep
    exact ⟨sizes, h.release hindex⟩
  · obtain ⟨frame, hrun, rfl⟩ := step_leave_eq_some.mp hstep
    refine ⟨sizes, ?_⟩
    rcases h.progress.frames frame hrun with rfl | ⟨i, size, before, rfl, -⟩ | ⟨i, rfl, -⟩
    · exact h.leave_opened hrun
    · exact h.leave_delivered hrun
    · exact h.leave_ended hrun
  · obtain ⟨hrun, hturn⟩ := step_loop_eq_some.mp hstep
    obtain ⟨r, hfind, hallowed, rfl⟩ := turnover_readDone_eq_some.mp hturn
    exact ⟨_, h.data hrun (mem_of_readRequest hfind) hallowed.1
      (hdomain descriptor h.ready.isOpen)⟩
  · obtain ⟨hrun, hturn⟩ := step_loop_eq_some.mp hstep
    obtain ⟨r, hfind, -, rfl⟩ := turnover_readDone_eq_some.mp hturn
    exact ⟨sizes, h.end hrun (mem_of_readRequest hfind) (hdomain descriptor h.ready.isOpen)⟩
  · exact hdomain.elim

theorem ReadingOn.inOrder :
    InOrder content callback endReadCallback start s
      (chunksFrom callback s.registeredIn descriptor 0 sizes) := by
  have hp := h.progress
  have hsum : sizes.sum = s.position descriptor := hp.position
  have hle : 0 + sizes.sum ≤ content.length := by
    rw [Nat.zero_add, hsum]
    exact hp.le
  have hends : endCalls endReadCallback s.calls =
      endCalls endReadCallback start.calls + s.doneRead.toNat := hp.ends
  exact
    { toCallback := fun c hc => (mem_chunksFrom _ _ _ hp.positive hle hc).1
      sizes := fun c hc => (mem_chunksFrom _ _ _ hp.positive hle hc).2
      isPrefix := by
        rw [flatMap_bytes_chunksFrom]
        exact List.take_prefix _ _
      offsets := by
        intro n c hc
        rw [List.map_take, map_size_chunksFrom, offset_chunksFrom _ _ _ _ _ _ _ hc, Nat.zero_add]
      buffers := h.pooled.lt
      oneRead := by
        cases hreads : s.reads with
        | nil => simp
        | cons r rest =>
            have honly := (h.pooled.reads r (by simp [hreads])).1
            rw [← hreads, honly]
            simp
      held := fun k hk => ⟨hp.held k hk, h.pooled.content k (.inl hk)⟩
      blocking := h.pooled.blocking
      awake := by
        intro hrun hcalls
        rw [hends] at hcalls
        refine h.awake ?_ (own_none hrun descriptor)
        cases hdone : s.doneRead with
        | false => rfl
        | true => simp [hdone] at hcalls
      endAtMostOnce := by
        rw [hends]
        have := Bool.toNat_le s.doneRead
        omega
      endAfterAll := by
        intro hcalls
        rw [hends] at hcalls
        have hdone : s.doneRead = true := by
          cases hdone : s.doneRead with
          | true => rfl
          | false => simp [hdone] at hcalls
        have hwhole : s.position descriptor = content.length := hp.done hdone
        rw [flatMap_bytes_chunksFrom, hsum, hwhole]
        simp
      completions := by
        have hcompleted : s.completed.length ≤
          start.completed.length + s.position descriptor + s.doneRead.toNat := hp.completed
        have hbound : s.position descriptor ≤ content.length := hp.le
        have := Bool.toNat_le s.doneRead
        omega }

end

end Steps

/-! ## Runs -/

/-- One `read` with an end callback of a file that was just opened, after a run in which sequential
reads have completed only on the open file. In every state the chunks are a prefix of the content,
in order and with their offsets, kept chunks do not change, and until the end is reported a read is
in flight when a buffer is free. The end is reported once, after the whole content and at most one
read for each byte and one more. -/
theorem sequential_read_in_order {content : List UInt8} {descriptor : Nat} {start s : File}
    {before run : List Event} (callback endReadCallback : Nat)
    (hbefore : exec step {} before = some start) (hgood : Along step CompletesOpen {} before)
    (hstart : FreshlyOpened descriptor start)
    (h : exec (restrict (FileRead content) step)
      (start.read (some callback) (some endReadCallback) none) run = some s) :
    ∃ chunks, s.deliveries = start.deliveries ++ chunks ∧
      InOrder content callback endReadCallback start s chunks := by
  have hkeep : ∀ s e s',
      (∃ sizes, ReadingOn content descriptor callback endReadCallback start sizes s) →
      restrict (FileRead content) step s e = some s' →
      ∃ sizes, ReadingOn content descriptor callback endReadCallback start sizes s' :=
    fun _ _ _ ⟨_, hs⟩ hstep => hs.step hstep
  have hflag : start.readInProgress = false := by
    have hflagged := flagged_of_completesOpen hbefore hgood
    simpa [Flagged, sequentialReads, hstart.reads] using hflagged.symm
  obtain ⟨sizes, hs⟩ := exec_invariant hkeep
    ⟨[], readingOn_read hstart hflag content callback endReadCallback⟩ h
  exact ⟨_, hs.progress.chunks, hs.inOrder⟩

def justOpened (callback : Nat) : File :=
  { state := .opened
    openCallback := some callback
    openRequest := some 0
    fileHandle := some 1
    opens := 1
    requests := 1
    running := some .opened
    calls := [.opened callback {}]
    passed := [callback] }

def openOnce (callback : Nat) : List Event :=
  [.call (.openFile (some callback)) none, .loop (.opened 0 {}) none]

theorem exec_openOnce (callback : Nat) :
    exec step {} (openOnce callback) = some (justOpened callback) := rfl

theorem freshlyOpened_justOpened (callback : Nat) : FreshlyOpened 1 (justOpened callback) where
  isOpen := rfl
  notClosing := by simp [justOpened]
  offset := rfl
  position := rfl
  buffers _ := ⟨rfl, rfl⟩
  reads := rfl
  held := rfl
  blocking := rfl
  running := .inr rfl

def readThreeBytes : List Event :=
  [.leave none, .loop (.readDone 1 (.data 2)) none, .call .keep none, .leave none,
    .loop (.readDone 2 (.data 1)) none, .leave none, .loop (.readDone 3 .endOfFile) none,
    .call (.release 0) none, .leave none]

theorem sequential_read_in_order_threeBytes :
    exec step {} (openOnce 0) = some (justOpened 0) ∧
    Along step CompletesOpen {} (openOnce 0) ∧
    ∃ s, exec (restrict (FileRead [1, 2, 3]) step)
        ((justOpened 0).read (some 1) (some 2) none) readThreeBytes = some s ∧
      s.reads = [] ∧ s.blocking = 0 ∧ endCalls 2 s.calls = 1 ∧
      ∃ chunks, s.deliveries = (justOpened 0).deliveries ++ chunks ∧
        InOrder [1, 2, 3] 1 2 (justOpened 0) s chunks := by
  have h : ∃ s ∈ exec (restrict (FileRead [1, 2, 3]) step)
      ((justOpened 0).read (some 1) (some 2) none) readThreeBytes,
      s.reads = [] ∧ s.blocking = 0 ∧ endCalls 2 s.calls = 1 := by
    decide +kernel
  have hgood : Along step CompletesOpen {} (openOnce 0) := by decide
  obtain ⟨s, hs, hreads, hblocking, hend⟩ := h
  exact ⟨rfl, hgood, s, hs, hreads, hblocking, hend,
    sequential_read_in_order 1 2 (exec_openOnce 0) hgood (freshlyOpened_justOpened 0) hs⟩

def reopened : File :=
  { state := .opened
    openCallback := some 0
    readCallback := some 1
    buffers := Function.update (fun _ => {}) 0 { content := some ⟨1, 0, 5⟩ }
    readInProgress := true
    fileHandle := some 2
    opens := 2
    requests := 3
    position := Function.update (fun _ => 0) 1 5
    registeredIn := 1
    readOwner := some 1
    calls := [.opened 0 {}, .read 1 1 none (.ofCode .fileNotOpen)
      (some ⟨1, .sequential 0, 1, some 1⟩), .opened 0 {}]
    passed := [0, 0]
    completed := [⟨⟨1, .sequential 0, 1, some 1⟩, .data 5, false⟩] }

theorem exec_closeWhileReading : exec step {} closeWhileReading = some reopened := by
  -- The first buffer is taken, filled, given back by `on_read` and freed.
  have hbuffers : exec step {} closeWhileReading =
      some { reopened with
        buffers := Function.update (Function.update (Function.update (Function.update (fun _ => {})
          0 ⟨false, true, none⟩) 0 ⟨false, true, some ⟨1, 0, 5⟩⟩)
          0 ⟨false, false, some ⟨1, 0, 5⟩⟩) 0 ⟨true, false, some ⟨1, 0, 5⟩⟩ } := rfl
  rw [hbuffers]
  simp only [Function.update_idem]
  rfl

theorem freshlyOpened_reopened : FreshlyOpened 2 reopened where
  isOpen := rfl
  notClosing := by simp [reopened]
  offset := rfl
  position := rfl
  buffers i := by
    by_cases hi : i = 0
    · subst hi
      exact ⟨rfl, rfl⟩
    · simp [reopened, hi]
  reads := rfl
  held := rfl
  blocking := rfl
  running := .inl rfl

/-- The reopened file is open and its buffers are free, but a `read` starts no read: no chunk and
no end will come. -/
theorem sequential_read_not_started :
    exec step {} closeWhileReading = some reopened ∧ FreshlyOpened 2 reopened ∧
      ∀ content chunks, ¬ InOrder content 1 2 reopened
        (reopened.read (some 1) (some 2) none) chunks := by
  refine ⟨exec_closeWhileReading, freshlyOpened_reopened, ?_⟩
  intro content chunks h
  exact h.awake rfl rfl (by decide) rfl

end File

end TarmIo.Fs
