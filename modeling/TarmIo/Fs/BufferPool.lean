import TarmIo.Fs.FileSteps

/-!
# The read buffers of a file

A read buffer is in use while a read goes into it, while `on_read` has it, or while the user keeps a
chunk of it. `Pool` says that the flags of the buffers, the requests and the kept chunks agree on
this, for a file that only reads sequentially and whose reads libuv takes.
-/

namespace TarmIo.Fs

namespace File

def inUse (buffers : Nat → ReadBuffer) : Nat :=
  (List.range readBufsNum).countP fun i => !(buffers i).isFree

/-- `own` is the buffer that `on_read` has, with the bytes in it. -/
structure Pool (own : Option Held) (buffers : Nat → ReadBuffer) (held : List Held)
    (reads : List ReadRequest) (blocking : Int) : Prop where
  nonFree : ∀ i, (buffers i).isFree = false ↔ (buffers i).hasBuf = true ∨ ∃ h ∈ held, h.buffer = i
  hasBuf : ∀ i, (buffers i).hasBuf = true ↔
    (∃ r ∈ reads, r.kind = .sequential i) ∨ ∃ h ∈ own, h.buffer = i
  lt : ∀ i, (buffers i).isFree = false → i < readBufsNum
  reads : ∀ r ∈ reads, reads = [r] ∧ ∃ i, r.kind = .sequential i ∧
    (∀ h ∈ held, h.buffer ≠ i) ∧ ∀ h ∈ own, h.buffer ≠ i
  content : ∀ h, h ∈ held ∨ h ∈ own → (buffers h.buffer).content = some h.span
  blocking : blocking = inUse buffers

/-! ## Counting -/

variable {i : Nat} {buffers : Nat → ReadBuffer} {b : ReadBuffer}

theorem countP_range_succ_of {n i : Nat} {p q : Nat → Bool} (hi : i < n)
    (hother : ∀ j, j ≠ i → p j = q j) (hp : p i = true) (hq : q i = false) :
    (List.range n).countP p = (List.range n).countP q + 1 := by
  induction n with
  | zero => exact absurd hi (Nat.not_lt_zero i)
  | succ n ih =>
      rw [List.range_succ, List.countP_append, List.countP_append]
      by_cases hlast : i = n
      · have hfront : (List.range n).countP p = (List.range n).countP q := by
          refine List.countP_congr fun j hj => ?_
          rw [hother j (by rw [hlast]; exact Nat.ne_of_lt (List.mem_range.mp hj))]
        subst hlast
        simp [hfront, hp, hq]
      · have hne : n ≠ i := fun h => hlast h.symm
        rw [ih (by omega), List.countP_singleton, List.countP_singleton, hother n hne]
        omega

theorem inUse_update_taken (hi : i < readBufsNum) (hfree : (buffers i).isFree = true)
    (hb : b.isFree = false) : inUse (Function.update buffers i b) = inUse buffers + 1 := by
  refine countP_range_succ_of hi ?_ ?_ ?_
  · intro j hj
    rw [Function.update_of_ne hj]
  · simp [hb]
  · simp [hfree]

theorem inUse_update_freed (hi : i < readBufsNum) (hused : (buffers i).isFree = false)
    (hb : b.isFree = true) : inUse buffers = inUse (Function.update buffers i b) + 1 := by
  refine countP_range_succ_of hi ?_ ?_ ?_
  · intro j hj
    rw [Function.update_of_ne hj]
  · simp [hused]
  · simp [hb]

theorem inUse_update_same (hb : b.isFree = (buffers i).isFree) :
    inUse (Function.update buffers i b) = inUse buffers := by
  refine List.countP_congr fun j _ => ?_
  by_cases hj : j = i
  · subst hj
    rw [Function.update_self, hb]
  · rw [Function.update_of_ne hj]

namespace Pool

variable {own : Option Held} {held : List Held} {r : ReadRequest} {k : Held}

  {reads : List ReadRequest} {blocking : Int}

theorem hasBuf_of_isFree (h : Pool own buffers held reads blocking)
    (hfree : (buffers i).isFree = true) : (buffers i).hasBuf = false := by
  by_contra hbuf
  have hused := (h.nonFree i).mpr (.inl (by simpa using hbuf))
  rw [hfree] at hused
  cases hused

theorem not_held_of_isFree (h : Pool own buffers held reads blocking)
    (hfree : (buffers i).isFree = true) : ∀ k ∈ held, k.buffer ≠ i := by
  intro k hk heq
  have hused := (h.nonFree i).mpr (.inr ⟨k, hk, heq⟩)
  rw [hfree] at hused
  cases hused

theorem take (h : Pool own buffers held [] blocking) (hi : i < readBufsNum)
    (hfree : (buffers i).isFree = true) (hr : r.kind = .sequential i) :
    Pool own (Function.update buffers i { isFree := false, hasBuf := true }) held [r]
      (blocking + 1) := by
  have hnotHeld := h.not_held_of_isFree hfree
  have hnotOwn : ∀ k ∈ own, k.buffer ≠ i := by
    intro k hk heq
    have hbuf := (h.hasBuf i).mpr (.inr ⟨k, hk, heq⟩)
    rw [h.hasBuf_of_isFree hfree] at hbuf
    cases hbuf
  refine ⟨?_, ?_, ?_, ?_, ?_, ?_⟩
  · intro j
    by_cases hj : j = i
    · subst hj
      simp
    · rw [Function.update_of_ne hj]
      exact h.nonFree j
  · intro j
    by_cases hj : j = i
    · subst hj
      simp [hr]
    · rw [Function.update_of_ne hj, h.hasBuf j]
      have hother : ¬ i = j := fun heq => hj heq.symm
      simp [hr, hother]
  · intro j hused
    by_cases hj : j = i
    · rw [hj]
      exact hi
    · rw [Function.update_of_ne hj] at hused
      exact h.lt j hused
  · intro r' hr'
    rw [List.mem_singleton.mp hr']
    exact ⟨rfl, i, hr, hnotHeld, hnotOwn⟩
  · intro k hk
    have hne : k.buffer ≠ i := hk.elim (hnotHeld k) (hnotOwn k)
    rw [Function.update_of_ne hne]
    exact h.content k hk
  · rw [h.blocking, inUse_update_taken hi hfree rfl]
    rfl

theorem land (h : Pool none buffers held [r] blocking) (hr : r.kind = .sequential i) (span : Span) :
    Pool (some ⟨i, span⟩)
      (Function.update buffers i { buffers i with content := some span }) held [] blocking := by
  obtain ⟨-, j, hj, hnotHeld, -⟩ := h.reads r (List.mem_singleton_self r)
  cases ReadKind.sequential.inj (hr.symm.trans hj)
  refine ⟨?_, ?_, ?_, by simp, ?_, ?_⟩
  · intro j
    by_cases hj : j = i
    · subst hj
      simpa using h.nonFree j
    · rw [Function.update_of_ne hj]
      exact h.nonFree j
  · intro j
    by_cases hj : j = i
    · subst hj
      have hbuf := (h.hasBuf j).mpr (.inl ⟨r, List.mem_singleton_self r, hr⟩)
      simp [hbuf]
    · rw [Function.update_of_ne hj, h.hasBuf j]
      have hother : ¬ i = j := fun heq => hj heq.symm
      simp [hr, hother]
  · intro j hused
    refine h.lt j ?_
    by_cases hj : j = i
    · subst hj
      simpa using hused
    · rwa [Function.update_of_ne hj] at hused
  · intro k hk
    rcases hk with hk | hk
    · rw [Function.update_of_ne (hnotHeld k hk)]
      exact h.content k (.inl hk)
    · cases hk
      simp
  · rw [h.blocking, inUse_update_same]
    rfl

section

variable (h : Pool (some k) buffers held reads blocking)
include h

theorem keep : Pool (some k) buffers (held ++ [k]) reads blocking := by
  have hbuf : (buffers k.buffer).hasBuf = true := (h.hasBuf _).mpr (.inr ⟨k, rfl, rfl⟩)
  refine ⟨?_, h.hasBuf, h.lt, ?_, ?_, h.blocking⟩
  · intro i
    rw [h.nonFree i]
    constructor
    · rintro (hi | ⟨k', hk', heq⟩)
      · exact .inl hi
      · exact .inr ⟨k', List.mem_append_left _ hk', heq⟩
    · rintro (hi | ⟨k', hk', heq⟩)
      · exact .inl hi
      · rcases List.mem_append.mp hk' with hk' | hk'
        · exact .inr ⟨k', hk', heq⟩
        · rw [← heq, List.mem_singleton.mp hk']
          exact .inl hbuf
  · intro r hr
    obtain ⟨honly, i, hi, hnotHeld, hnotOwn⟩ := h.reads r hr
    refine ⟨honly, i, hi, ?_, hnotOwn⟩
    intro k' hk'
    rcases List.mem_append.mp hk' with hk' | hk'
    · exact hnotHeld k' hk'
    · rw [List.mem_singleton.mp hk']
      exact hnotOwn k rfl
  · intro k' hk'
    refine h.content k' ?_
    rcases hk' with hk' | hk'
    · rcases List.mem_append.mp hk' with hk' | hk'
      · exact .inl hk'
      · rw [List.mem_singleton.mp hk']
        exact .inr rfl
    · exact .inr hk'

theorem not_readInto (hr : r ∈ reads) : r.kind ≠ .sequential k.buffer := by
  obtain ⟨-, i, hi, -, hnotOwn⟩ := h.reads r hr
  intro hk
  cases ReadKind.sequential.inj (hk.symm.trans hi)
  exact hnotOwn k rfl rfl

/-- `on_read` gives its buffer back, and the user keeps a chunk of it. -/
theorem drop (hheld : ∃ k' ∈ held, k'.buffer = k.buffer) :
    Pool none
      (Function.update buffers k.buffer { buffers k.buffer with hasBuf := false }) held reads
      blocking := by
  have hused : (buffers k.buffer).isFree = false := (h.nonFree _).mpr (.inr hheld)
  refine ⟨?_, ?_, ?_, ?_, ?_, ?_⟩
  · intro j
    by_cases hj : j = k.buffer
    · subst hj
      simp [hused, hheld]
    · rw [Function.update_of_ne hj]
      exact h.nonFree j
  · intro j
    by_cases hj : j = k.buffer
    · subst hj
      simpa using fun r hr => h.not_readInto hr
    · rw [Function.update_of_ne hj, h.hasBuf j]
      have hother : ¬ k.buffer = j := fun heq => hj heq.symm
      simp [hother]
  · intro j hfree
    refine h.lt j ?_
    by_cases hj : j = k.buffer
    · subst hj
      simpa using hfree
    · rwa [Function.update_of_ne hj] at hfree
  · intro r hr
    obtain ⟨honly, i, hi, hnotHeld, -⟩ := h.reads r hr
    exact ⟨honly, i, hi, hnotHeld, by simp⟩
  · rintro k' (hk' | hk')
    · have hcontent := h.content k' (.inl hk')
      by_cases hj : k'.buffer = k.buffer
      · rw [hj, Function.update_self]
        rwa [hj] at hcontent
      · rwa [Function.update_of_ne hj]
    · cases hk'
  · rw [h.blocking, inUse_update_same]
    rfl

end

/-- The last reference to a buffer is dropped: that of `on_read`, or a chunk that the user kept. -/
theorem free (h : Pool own buffers held reads blocking) {own' : Option Held} {held' : List Held}
    (hheld : ∀ k, k ∈ held' ↔ k ∈ held ∧ k.buffer ≠ i)
    (hown : ∀ k, k ∈ own' ↔ k ∈ own ∧ k.buffer ≠ i) (hread : ∀ r ∈ reads, r.kind ≠ .sequential i)
    (hused : (buffers i).isFree = false) :
    Pool own'
      (Function.update buffers i { buffers i with isFree := true, hasBuf := false }) held' reads
      (blocking - 1) := by
  refine ⟨?_, ?_, ?_, ?_, ?_, ?_⟩
  · intro j
    by_cases hj : j = i
    · subst hj
      simp only [Function.update_self, hheld]
      simp
    · rw [Function.update_of_ne hj, h.nonFree j]
      refine or_congr_right ⟨?_, ?_⟩
      · rintro ⟨k, hk, rfl⟩
        exact ⟨k, (hheld k).mpr ⟨hk, hj⟩, rfl⟩
      · rintro ⟨k, hk, rfl⟩
        exact ⟨k, ((hheld k).mp hk).1, rfl⟩
  · intro j
    by_cases hj : j = i
    · subst hj
      simp only [Function.update_self, hown]
      simpa using hread
    · rw [Function.update_of_ne hj, h.hasBuf j]
      refine or_congr_right ⟨?_, ?_⟩
      · rintro ⟨k, hk, rfl⟩
        exact ⟨k, (hown k).mpr ⟨hk, hj⟩, rfl⟩
      · rintro ⟨k, hk, rfl⟩
        exact ⟨k, ((hown k).mp hk).1, rfl⟩
  · intro j hfree
    by_cases hj : j = i
    · subst hj
      simp at hfree
    · rw [Function.update_of_ne hj] at hfree
      exact h.lt j hfree
  · intro r hr
    obtain ⟨honly, j, hj, hnotHeld, hnotOwn⟩ := h.reads r hr
    exact ⟨honly, j, hj, fun k hk => hnotHeld k ((hheld k).mp hk).1,
      fun k hk => hnotOwn k ((hown k).mp hk).1⟩
  · intro k hk
    have hold : k ∈ held ∨ k ∈ own := hk.imp (fun hk => ((hheld k).mp hk).1)
      (fun hk => ((hown k).mp hk).1)
    have hne : k.buffer ≠ i := hk.elim (fun hk => ((hheld k).mp hk).2)
      (fun hk => ((hown k).mp hk).2)
    rw [Function.update_of_ne hne]
    exact h.content k hold
  · have hcount := inUse_update_freed (b := { buffers i with isFree := true, hasBuf := false })
      (h.lt i hused) hused rfl
    rw [h.blocking, hcount]
    omega

theorem forget (h : Pool own buffers held reads blocking) {held' : List Held}
    (hsub : ∀ k ∈ held', k ∈ held) (hrest : ∀ k ∈ held, k ∈ held' ∨ k.buffer = i)
    (hstill : (buffers i).hasBuf = true ∨ ∃ k ∈ held', k.buffer = i) :
    Pool own buffers held' reads blocking := by
  refine ⟨?_, h.hasBuf, h.lt, ?_, ?_, h.blocking⟩
  · intro j
    rw [h.nonFree j]
    constructor
    · rintro (hbuf | ⟨k, hk, rfl⟩)
      · exact .inl hbuf
      · rcases hrest k hk with hk | hk
        · exact .inr ⟨k, hk, rfl⟩
        · rw [hk]
          exact hstill
    · rintro (hbuf | ⟨k, hk, rfl⟩)
      · exact .inl hbuf
      · exact .inr ⟨k, hsub k hk, rfl⟩
  · intro r hr
    obtain ⟨honly, j, hj, hnotHeld, hnotOwn⟩ := h.reads r hr
    exact ⟨honly, j, hj, fun k hk => hnotHeld k (hsub k hk), hnotOwn⟩
  · exact fun k hk => h.content k (hk.imp_left (hsub k))

end Pool

/-! ## `schedule_read` -/

variable {s : File} {own : Option Held} {descriptor callback : Nat}

structure Ready (descriptor callback : Nat) (s : File) : Prop where
  isOpen : s.fileHandle = some descriptor
  notClosing : s.state ≠ .closing
  owner : s.readOwner = some callback
  flag : s.readInProgress = !s.reads.isEmpty
  source : ∀ r ∈ s.reads, r.descriptor = descriptor

structure Unread where
  state : State
  readCallback : Option Nat
  endReadCallback : Option Nat
  readOwner : Option Nat
  registeredIn : Nat
  fileHandle : Option Nat
  currentOffset : Nat
  doneRead : Bool
  position : Nat → Nat
  held : List Held
  running : Option Frame
  calls : List Call
  completed : List Completion

def unread (s : File) : Unread :=
  { state := s.state
    readCallback := s.readCallback
    endReadCallback := s.endReadCallback
    readOwner := s.readOwner
    registeredIn := s.registeredIn
    fileHandle := s.fileHandle
    currentOffset := s.currentOffset
    doneRead := s.doneRead
    position := s.position
    held := s.held
    running := s.running
    calls := s.calls
    completed := s.completed }

def Pooled (own : Option Held) (s : File) : Prop := Pool own s.buffers s.held s.reads s.blocking

/-- `schedule_read` that libuv takes: afterwards a read is in flight, or no buffer is free. -/
theorem scheduleRead_spec (hready : Ready descriptor callback s) (hpool : Pooled own s) :
    ∃ s', s.scheduleRead none = (s', .returned) ∧ s'.unread = s.unread ∧
      Ready descriptor callback s' ∧ Pooled own s' ∧
      (s'.freeBuffer ≠ none → s'.reads ≠ []) := by
  unfold scheduleRead
  rw [hready.isOpen]
  dsimp only
  rw [if_neg hready.notClosing]
  by_cases hflag : s.readInProgress = true
  · rw [if_pos hflag]
    refine ⟨s, rfl, rfl, hready, hpool, fun _ => ?_⟩
    simpa [hready.flag] using hflag
  · rw [if_neg hflag]
    have hnone : s.reads = [] := by
      simpa [hready.flag] using hflag
    cases hfree : s.freeBuffer with
    | none => exact ⟨s, rfl, rfl, hready, hpool, fun h => absurd hfree h⟩
    | some i =>
        obtain ⟨hi, hbuffer⟩ := freeBuffer_eq_some hfree
        refine ⟨_, rfl, rfl, ⟨hready.isOpen, hready.notClosing, hready.owner, ?_, ?_⟩, ?_, ?_⟩
        · simp [submitRead]
        · simp [submitRead, takeBuffer, onBuffer, hnone]
        · unfold Pooled at hpool
          rw [hnone] at hpool
          have htaken := hpool.take hi hbuffer (r :=
            { id := s.requests, kind := .sequential i, descriptor, owner := s.readOwner }) rfl
          simpa [Pooled, submitRead, takeBuffer, onBuffer, hnone] using htaken
        · simp [submitRead]

/-! ## Buffers that are given back -/

/-- What is given back: the file is as before, and its buffers are in order. While the end is not
reached, no read is missed. -/
structure GivenBack (descriptor callback : Nat) (own : Option Held) (s s' : File) : Prop where
  ready : Ready descriptor callback s'
  pooled : Pooled own s'
  awake : s.doneRead = false → (s.freeBuffer ≠ none → s.reads ≠ []) →
    s'.freeBuffer ≠ none → s'.reads ≠ []
  done : s.doneRead = true → s'.reads = s.reads

theorem onBufferFreed_spec (hready : Ready descriptor callback s)
    (hpool : Pooled own (s.freeBuf i)) :
    ∃ s', s.onBufferFreed i none = (s', .returned) ∧ s'.unread = s.unread ∧
      GivenBack descriptor callback own s s' := by
  have hfreed : Ready descriptor callback (s.freeBuf i) :=
    ⟨hready.isOpen, hready.notClosing, hready.owner, hready.flag, hready.source⟩
  unfold onBufferFreed
  cases hdone : s.doneRead with
  | true =>
      rw [if_pos rfl]
      exact ⟨_, rfl, rfl, hfreed, hpool, by simp [hdone], fun _ => rfl⟩
  | false =>
      rw [if_neg (by simp)]
      obtain ⟨s', heq, hsame, hready', hpool', hawake⟩ := scheduleRead_spec hfreed hpool
      exact ⟨s', heq, hsame, hready', hpool', fun _ _ => hawake, by simp [hdone]⟩

theorem isHeld_iff : s.isHeld i = true ↔ ∃ k ∈ s.held, k.buffer = i := by
  simp [isHeld]

theorem endWithReset_spec {k : Held} (hready : Ready descriptor callback s)
    (hpool : Pooled (some k) s) :
    (s.endWithReset k.buffer none).unread = s.unread ∧
      GivenBack descriptor callback none s (s.endWithReset k.buffer none) := by
  have hdropped : Ready descriptor callback (s.dropBuf k.buffer) :=
    ⟨hready.isOpen, hready.notClosing, hready.owner, hready.flag, hready.source⟩
  have hfreeBuffer : (s.dropBuf k.buffer).freeBuffer = s.freeBuffer := by
    unfold freeBuffer
    congr 1
    funext j
    by_cases hj : j = k.buffer
    · subst hj
      simp [dropBuf, onBuffer]
    · simp [dropBuf, onBuffer, Function.update_of_ne hj]
  unfold endWithReset resetBuf
  by_cases hheld : s.isHeld k.buffer = true
  · rw [if_pos hheld]
    refine ⟨rfl, hdropped, hpool.drop (isHeld_iff.mp hheld), ?_, fun _ => rfl⟩
    rw [hfreeBuffer]
    exact fun _ h => h
  · rw [if_neg hheld]
    have hpool' : Pooled none ((s.dropBuf k.buffer).freeBuf k.buffer) := by
      have hnot : ∀ k' ∈ s.held, k'.buffer ≠ k.buffer := by
        simpa [isHeld] using hheld
      have hused : (s.buffers k.buffer).isFree = false :=
        (hpool.nonFree _).mpr (.inl ((hpool.hasBuf _).mpr (.inr ⟨k, rfl, rfl⟩)))
      have hkeeps : ∀ k', k' ∈ s.held ↔ k' ∈ s.held ∧ k'.buffer ≠ k.buffer :=
        fun k' => ⟨fun hk => ⟨hk, hnot k' hk⟩, And.left⟩
      have hown : ∀ k', k' ∈ (none : Option Held) ↔ k' ∈ some k ∧ k'.buffer ≠ k.buffer := by
        simp
      have hfree := hpool.free hkeeps hown (fun r hr => hpool.not_readInto hr) hused
      simpa [Pooled, dropBuf, freeBuf, onBuffer] using hfree
    obtain ⟨s', heq, hsame, hgiven⟩ := onBufferFreed_spec hdropped hpool'
    rw [heq]
    refine ⟨hsame, hgiven.ready, hgiven.pooled, ?_, hgiven.done⟩
    intro hdone hawake
    exact hgiven.awake hdone (by rwa [hfreeBuffer])

theorem release_spec {k : Held} {descriptor callback index : Nat}
    (hready : Ready descriptor callback s) (hpool : Pooled own s)
    (hindex : s.held[index]? = some k) :
    (s.release index k.buffer none).unread =
        { s.unread with held := s.held.eraseIdx index } ∧
      GivenBack descriptor callback own s (s.release index k.buffer none) := by
  have hready' : Ready descriptor callback { s with held := s.held.eraseIdx index } :=
    ⟨hready.isOpen, hready.notClosing, hready.owner, hready.flag, hready.source⟩
  have hsub : ∀ k' ∈ s.held.eraseIdx index, k' ∈ s.held := fun k' hk => List.mem_of_mem_eraseIdx hk
  have hrest : ∀ k' ∈ s.held, k' ∈ s.held.eraseIdx index ∨ k'.buffer = k.buffer := by
    intro k' hk
    obtain ⟨n, hn⟩ := List.mem_iff_getElem?.mp hk
    by_cases heq : n = index
    · rw [heq, hindex] at hn
      cases hn
      exact .inr rfl
    · exact .inl (List.mem_eraseIdx_iff_getElem?.mpr ⟨n, heq, hn⟩)
  unfold release
  dsimp only
  split
  next hstill =>
    have hother : (s.buffers k.buffer).hasBuf = true ∨
        ∃ k' ∈ s.held.eraseIdx index, k'.buffer = k.buffer := by
      simpa [isHeld] using hstill
    exact ⟨rfl, hready', hpool.forget hsub hrest hother, fun _ h => h, fun _ => rfl⟩
  next hlast =>
    have hnone : (s.buffers k.buffer).hasBuf = false ∧
        ∀ k' ∈ s.held.eraseIdx index, k'.buffer ≠ k.buffer := by
      simpa [isHeld] using hlast
    have hpool' : Pooled own ({ s with held := s.held.eraseIdx index }.freeBuf k.buffer) := by
      have hkeeps : ∀ k', k' ∈ s.held.eraseIdx index ↔ k' ∈ s.held ∧ k'.buffer ≠ k.buffer :=
        fun k' => ⟨fun hk => ⟨hsub k' hk, hnone.2 k' hk⟩,
          fun hk => (hrest k' hk.1).resolve_right hk.2⟩
      have hunread : ∀ r ∈ s.reads, r.kind ≠ .sequential k.buffer := by
        intro r hr hkind
        have hbuf := (hpool.hasBuf k.buffer).mpr (.inl ⟨r, hr, hkind⟩)
        rw [hnone.1] at hbuf
        cases hbuf
      have hown : ∀ k', k' ∈ own ↔ k' ∈ own ∧ k'.buffer ≠ k.buffer := by
        refine fun k' => ⟨fun hk => ⟨hk, fun heq => ?_⟩, And.left⟩
        have hbuf := (hpool.hasBuf k.buffer).mpr (.inr ⟨k', hk, heq⟩)
        rw [hnone.1] at hbuf
        cases hbuf
      have hused : (s.buffers k.buffer).isFree = false :=
        (hpool.nonFree _).mpr (.inr ⟨k, List.mem_of_getElem? hindex, rfl⟩)
      have hfree := hpool.free hkeeps hown hunread hused
      simpa [Pooled, freeBuf, onBuffer, hnone.1] using hfree
    obtain ⟨s', heq, hsame, hgiven⟩ := onBufferFreed_spec hready' hpool'
    rw [heq]
    exact ⟨hsame, hgiven.ready, hgiven.pooled, hgiven.awake, hgiven.done⟩

end File

end TarmIo.Fs
