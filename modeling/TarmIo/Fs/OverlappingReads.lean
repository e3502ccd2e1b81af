import TarmIo.Fs.FileSteps

/-!
# Who is answered when reads overlap

`read` and `read_block` store their callback in the same member, and a completion calls what is
stored then. A request is answered as it should be exactly when it finds the callback of its own
call there, and a `read_block` does not end in zero bytes, for which nothing is called.
-/

namespace TarmIo.Fs

open Foundation

namespace File

structure Answer where
  callback : Nat
  chunk : Option Chunk
  error : Error
deriving DecidableEq

def Call.answer : Call → Option (Nat × Answer)
  | .read callback _ chunk error (some request) => some (request.id, ⟨callback, chunk, error⟩)
  | .read _ _ _ _ none | .opened .. | .closed .. | .endRead _ => none

def answers (s : File) : List (Nat × Answer) := s.calls.filterMap Call.answer

def answersTo (s : File) (id : Nat) : List Answer :=
  (s.answers.filter fun a => a.1 == id).map Prod.snd

/-- The answer of a `read_block` to its own callback: the bytes at its offset, or its outcome. -/
def Completion.ownAnswer (c : Completion) (offset callback : Nat) : Answer :=
  if c.wasOpen then
    match c.outcome with
    | .data size =>
        { callback, chunk := some ⟨⟨c.request.descriptor, offset, size⟩, offset⟩, error := {} }
    | .endOfFile => { callback, chunk := none, error := {} }
    | .failed error => { callback, chunk := none, error := error }
  else { callback, chunk := none, error := .ofCode .fileNotOpen }

/-- A `read_block` was answered once, to its own callback, or not at all if that is null. Chunks and
errors of a sequential read went to its own callback. -/
def Completion.Due (c : Completion) (answers : List Answer) : Prop :=
  match c.request.kind with
  | .block offset _ => answers = c.request.owner.toList.map (c.ownAnswer offset)
  | .sequential _ => ∀ a ∈ answers, c.request.owner = some a.callback

def AllDue (s : File) : Prop := ∀ c ∈ s.completed, c.Due (s.answersTo c.request.id)

def speaks (s : File) (outcome : ReadOutcome) : Bool :=
  match outcome with
  | .endOfFile => !s.isOpen
  | .data _ | .failed _ => true

def called (s : File) (outcome : ReadOutcome) : Option Nat :=
  if s.speaks outcome then s.readCallback else none

def FindsOwn (s : File) (request : ReadRequest) (outcome : ReadOutcome) : Prop :=
  match request.kind with
  | .block .. => s.called outcome = request.owner
  | .sequential _ => s.called outcome = none ∨ s.called outcome = request.owner

instance (s : File) (request : ReadRequest) (outcome : ReadOutcome) :
    Decidable (s.FindsOwn request outcome) := by
  unfold FindsOwn
  split <;> infer_instance

def CompletesOwn (s : File) : Event → Prop
  | .loop (.readDone id outcome) _ => ∀ request ∈ s.readRequest id, s.FindsOwn request outcome
  | _ => True

instance (s : File) (e : Event) : Decidable (CompletesOwn s e) := by
  unfold CompletesOwn
  split <;> infer_instance

/-! ## The ledger of requests -/

def Job.refused : Job → Option ReadRequest
  | .blockRefused request _ => some request
  | .openFile _ | .closeNotOpen _ | .closeRefused .. => none

structure Ledger where
  answers : List (Nat × Answer)
  completed : List Completion
  refused : List ReadRequest
  blocks : List ReadRequest

def ledger (s : File) : Ledger :=
  { answers := s.answers
    completed := s.completed
    refused := s.scheduled.filterMap Job.refused
    blocks := s.blocks }

def Ledger.all (l : Ledger) (reads : List ReadRequest) : List ReadRequest :=
  l.completed.map Completion.request ++ (reads ++ l.refused)

/-- Requests have different numbers, an answer belongs to a request that is over, and no
`read_block` with a callback is lost. -/
structure Numbered (l : Ledger) (reads : List ReadRequest) (requests : Nat) : Prop where
  nodup : ((l.all reads).map ReadRequest.id).Nodup
  lt : ∀ r ∈ l.all reads, r.id < requests
  answered : ∀ a ∈ l.answers, ∃ c ∈ l.completed, c.request.id = a.1
  blocks : ∀ r ∈ l.blocks, r.owner ≠ none → r ∈ l.all reads
  refused : ∀ r ∈ l.refused, r.kind.isSequential = false ∧ r.owner ≠ none

def Recorded (s : File) : Prop := Numbered s.ledger s.reads s.requests

variable {l : Ledger} {n : Nat} {c : Completion} {s s' : File}

variable {l l' : Ledger} {reads reads' : List ReadRequest} {r : ReadRequest}
  {new : List (Nat × Answer)}

theorem Numbered.mono {reads : List ReadRequest} {n m : Nat} (h : Numbered l reads n)
    (hle : n ≤ m) : Numbered l reads m :=
  { h with lt := fun r hr => Nat.lt_of_lt_of_le (h.lt r hr) hle }

theorem Numbered.enter (h : Numbered l reads n) (hid : r.id = n)
    (hperm : (l'.all reads').Perm (r :: l.all reads)) (hanswers : l'.answers = l.answers)
    (hcompleted : l'.completed = l.completed) (hblocks : ∀ b ∈ l'.blocks, b ∈ l.blocks ∨ b = r)
    (hrefused : ∀ b ∈ l'.refused, b ∈ l.refused ∨ b.kind.isSequential = false ∧ b.owner ≠ none) :
    Numbered l' reads' (n + 1) := by
  refine ⟨?_, ?_, ?_, ?_, fun b hb => (hrefused b hb).elim (h.refused b) id⟩
  · rw [(hperm.map _).nodup_iff, List.map_cons, List.nodup_cons]
    refine ⟨?_, h.nodup⟩
    intro hmem
    obtain ⟨r', hr', heq⟩ := List.mem_map.mp hmem
    have hlt := h.lt r' hr'
    rw [heq, hid] at hlt
    exact Nat.lt_irrefl _ hlt
  · intro r' hr'
    rcases List.mem_cons.mp (hperm.mem_iff.mp hr') with rfl | hr'
    · rw [hid]
      exact Nat.lt_succ_self n
    · exact Nat.lt_succ_of_lt (h.lt r' hr')
  · rw [hanswers, hcompleted]
    exact h.answered
  · intro b hb howner
    refine hperm.mem_iff.mpr ?_
    rcases hblocks b hb with hb | rfl
    · exact List.mem_cons_of_mem _ (h.blocks b hb howner)
    · exact List.mem_cons_self

theorem Numbered.settle (h : Numbered l reads n) (hperm : (l'.all reads').Perm (l.all reads))
    (hanswers : l'.answers = l.answers ++ new) (hnew : ∀ a ∈ new, a.1 = c.request.id)
    (hcompleted : l'.completed = l.completed ++ [c]) (hblocks : l'.blocks = l.blocks)
    (hrefused : ∀ b ∈ l'.refused, b ∈ l.refused) : Numbered l' reads' n := by
  refine ⟨?_, ?_, ?_, ?_, fun b hb => h.refused b (hrefused b hb)⟩
  · rw [(hperm.map _).nodup_iff]
    exact h.nodup
  · exact fun r hr => h.lt r (hperm.mem_iff.mp hr)
  · intro a ha
    rw [hanswers] at ha
    rw [hcompleted]
    rcases List.mem_append.mp ha with ha | ha
    · obtain ⟨c', hc', heq⟩ := h.answered a ha
      exact ⟨c', List.mem_append_left _ hc', heq⟩
    · exact ⟨c, List.mem_append_right _ (List.mem_singleton_self c), (hnew a ha).symm⟩
  · rw [hblocks]
    exact fun r hr howner => hperm.mem_iff.mpr (h.blocks r hr howner)

/-- A request that is not over has no number of one that is. -/
theorem Numbered.id_ne {reads : List ReadRequest} (h : Numbered l reads n)
    (hr : r ∈ reads ++ l.refused) (hc : c ∈ l.completed) : c.request.id ≠ r.id := by
  have hnodup := h.nodup
  rw [Ledger.all, List.map_append] at hnodup
  exact (List.nodup_append.mp hnodup).2.2 _
    (List.mem_map_of_mem (List.mem_map_of_mem hc)) _ (List.mem_map_of_mem hr)

theorem allDue_congr (hcompleted : s'.completed = s.completed) (hanswers : s'.answers = s.answers) :
    s'.AllDue ↔ s.AllDue := by
  unfold AllDue answersTo
  rw [hcompleted, hanswers]

theorem allDue_of_ledger (h : s'.ledger = s.ledger) : s'.AllDue ↔ s.AllDue :=
  allDue_congr (congrArg Ledger.completed h) (congrArg Ledger.answers h)

/-- A request is over, and its answers are all there will be. -/
theorem allDue_settle (h : Recorded s) (hr : c.request ∈ s.reads ++ s.ledger.refused)
    (hanswers : s'.answers = s.answers ++ new) (hnew : ∀ a ∈ new, a.1 = c.request.id)
    (hcompleted : s'.completed = s.completed ++ [c]) :
    s'.AllDue ↔ s.AllDue ∧ c.Due (new.map Prod.snd) := by
  have hold : ∀ c' ∈ s.completed, s'.answersTo c'.request.id = s.answersTo c'.request.id := by
    intro c' hc'
    have hne := h.id_ne hr hc'
    have hnone : (new.filter fun a => a.1 == c'.request.id) = [] := by
      refine List.filter_eq_nil_iff.mpr fun a ha heq => ?_
      rw [hnew a ha] at heq
      exact hne (beq_iff_eq.mp heq).symm
    rw [answersTo, hanswers, List.filter_append, hnone, List.append_nil]
    rfl
  have hown : s'.answersTo c.request.id = new.map Prod.snd := by
    have hnone : (s.answers.filter fun a => a.1 == c.request.id) = [] := by
      refine List.filter_eq_nil_iff.mpr fun a ha heq => ?_
      obtain ⟨c', hc', hid⟩ := h.answered a ha
      exact h.id_ne hr hc' (hid.trans (beq_iff_eq.mp heq))
    have hall : (new.filter fun a => a.1 == c.request.id) = new :=
      List.filter_eq_self.mpr fun a ha => beq_iff_eq.mpr (hnew a ha)
    rw [answersTo, hanswers, List.filter_append, hnone, hall, List.nil_append]
  unfold AllDue
  rw [hcompleted]
  constructor
  · intro hall
    refine ⟨fun c' hc' => ?_, ?_⟩
    · rw [← hold c' hc']
      exact hall c' (List.mem_append_left _ hc')
    · rw [← hown]
      exact hall c (List.mem_append_right _ (List.mem_singleton_self c))
  · rintro ⟨hrest, hnow⟩ c' hc'
    rcases List.mem_append.mp hc' with hc' | hc'
    · rw [hold c' hc']
      exact hrest c' hc'
    · rw [List.mem_singleton.mp hc', hown]
      exact hnow

/-! ## Opening and closing -/

variable {job : Job}

theorem ledger_log {call : Call} (h : call.answer = none) (s : File) :
    (s.log call).ledger = s.ledger := by
  simp [ledger, answers, log, h]

theorem ledger_schedule (h : job.refused = none) (s : File) :
    (s.schedule job).ledger = s.ledger := by
  simp [ledger, answers, schedule, h]

structure Elsewhere (s s' : File) : Prop where
  ledger : s'.ledger = s.ledger
  reads : s'.reads = s.reads
  requests : s.requests ≤ s'.requests

theorem Elsewhere.recorded (h : Elsewhere s s') (hs : Recorded s) : Recorded s' := by
  unfold Recorded
  rw [h.ledger, h.reads]
  exact Numbered.mono hs h.requests

theorem elsewhere_runCloseCallback (s : File) (callback : CloseCallback) (error : Error) :
    Elsewhere s (s.runCloseCallback callback error).1 := by
  refine CloseCallback.run_cases (P := fun _ t => Elsewhere s t) closeReport s error ?_ ?_ ?_ ?_
    callback
  · exact fun _ _ => ⟨rfl, rfl, Nat.le_refl _⟩
  · exact fun _ => ⟨ledger_log rfl s, rfl, Nat.le_refl _⟩
  · exact fun _ => ⟨ledger_log rfl s, rfl, Nat.le_refl _⟩
  · exact fun _ _ => ⟨ledger_schedule rfl s, rfl, Nat.le_refl _⟩

theorem Elsewhere.trans {s t u : File} (h : Elsewhere s t) (h' : Elsewhere t u) : Elsewhere s u :=
  ⟨h'.ledger.trans h.ledger, h'.reads.trans h.reads, Nat.le_trans h.requests h'.requests⟩

theorem elsewhere_close (s : File) (callback : CloseCallback) (refusal : Option Failure) :
    Elsewhere s (s.close callback refusal) := by
  unfold close
  split
  · split
    · exact ⟨rfl, rfl, Nat.le_refl _⟩
    · exact ⟨ledger_schedule rfl s, rfl, Nat.le_refl _⟩
  · split
    · exact elsewhere_runCloseCallback ..
    · split
      · exact ⟨rfl, rfl, Nat.le_refl _⟩
      · dsimp only
        split
        · exact ⟨rfl, rfl, Nat.le_refl _⟩
        · exact ⟨ledger_schedule rfl _, rfl, Nat.le_refl _⟩

theorem elsewhere_afterClose (s : File) : Elsewhere s s.afterClose := by
  unfold afterClose finishClose
  split
  · split <;> exact ⟨rfl, rfl, Nat.le_refl _⟩
  · exact ⟨rfl, rfl, Nat.le_refl _⟩

theorem elsewhere_reportClose (s : File) (callback : CloseCallback) (error : Error) :
    Elsewhere s (s.reportClose callback error) := by
  have hcall := elsewhere_runCloseCallback s callback error
  unfold reportClose
  split
  next heq =>
    rw [heq] at hcall
    exact hcall.trans ⟨rfl, rfl, Nat.le_refl _⟩
  next heq =>
    rw [heq] at hcall
    exact hcall.trans (elsewhere_afterClose _)

theorem elsewhere_openFile (s : File) (callback : Option Nat) (refusal : Option Failure) :
    Elsewhere s (s.openFile callback refusal) := by
  refine openFile_cases s callback refusal (fun _ => elsewhere_close ..) (fun _ => ?_) fun _ => ?_
  · exact ⟨ledger_schedule rfl s, rfl, Nat.le_refl _⟩
  · exact ⟨rfl, rfl, Nat.le_succ _⟩

theorem elsewhere_onOpen (s : File) (error : Error) : Elsewhere s (s.onOpen error) := by
  unfold onOpen
  split
  · split
    · exact ⟨rfl, rfl, Nat.le_refl _⟩
    · exact ⟨ledger_log rfl s, rfl, Nat.le_refl _⟩
  · dsimp only
    split
    · exact ⟨rfl, rfl, Nat.le_refl _⟩
    · exact ⟨ledger_log rfl s, rfl, Nat.le_refl _⟩

/-! ## Reads -/

variable {readCallback : Option Nat}

theorem all_submit (l : Ledger) (reads : List ReadRequest) (r : ReadRequest) :
    (l.all (reads ++ [r])).Perm (r :: l.all reads) := by
  unfold Ledger.all
  rw [List.append_assoc, List.singleton_append, ← List.append_assoc, ← List.append_assoc]
  exact List.perm_middle

structure Silent (l : Ledger) (readCallback : Option Nat) (s : File) : Prop where
  ledger : s.ledger = l
  readCallback : s.readCallback = readCallback
  recorded : Numbered s.ledger s.reads s.requests

theorem keptByReads_silent (l : Ledger) (readCallback : Option Nat) :
    KeptByReads (Silent l readCallback) where
  dropBuf _ _ h := ⟨h.ledger, h.readCallback, h.recorded⟩
  freeBuf _ _ h := ⟨h.ledger, h.readCallback, h.recorded⟩
  into s i descriptor refusal h _ := by
    cases refusal with
    | none =>
        exact ⟨h.ledger, h.readCallback,
          h.recorded.enter rfl (all_submit ..) rfl rfl (fun b hb => .inl hb) fun b hb => .inl hb⟩
    | some error =>
        simp only [scheduleReadInto, refuseRead]
        split
        · exact ⟨h.ledger, h.readCallback, h.recorded⟩
        next callback _ =>
          have hlog : ((s.takeBuffer i).callRead callback none error none).ledger = s.ledger :=
            ledger_log rfl (s.takeBuffer i)
          refine ⟨hlog.trans h.ledger, h.readCallback, ?_⟩
          rw [hlog]
          exact h.recorded

theorem Silent.last (h : Silent l readCallback s) (frame : Option Frame) :
    Silent l readCallback { s with running := frame } :=
  ⟨h.ledger, h.readCallback, h.recorded⟩

theorem Recorded.silent (h : Recorded s) : Silent s.ledger s.readCallback s :=
  ⟨rfl, rfl, h⟩

/-! ## Completions -/

variable {request : ReadRequest} {answer : Nat → Answer}

def Ledger.reply (l : Ledger) (id : Nat) (readCallback : Option Nat) (answer : Nat → Answer) :
    Ledger :=
  { l with answers := l.answers ++ readCallback.toList.map fun callback => (id, answer callback) }

/-- What the completion of a read leaves: the ledger with its answers. -/
structure Replied (l : Ledger) (id : Nat) (readCallback : Option Nat) (answer : Nat → Answer)
    (s : File) : Prop where
  ledger : s.ledger = l.reply id readCallback answer
  recorded : Numbered s.ledger s.reads s.requests

theorem Silent.callRead (h : Silent l readCallback s) {callback : Nat}
    (hcallback : readCallback = some callback)
    (hover : ∃ c ∈ l.completed, c.request.id = request.id) (chunk : Option Chunk) (error : Error) :
    Replied l request.id readCallback (fun callback => ⟨callback, chunk, error⟩)
      (s.callRead callback chunk error (some request)) := by
  have hledger : (s.callRead callback chunk error (some request)).ledger =
      l.reply request.id readCallback (fun callback => ⟨callback, chunk, error⟩) := by
    rw [← h.ledger, hcallback]
    simp [File.ledger, answers, File.callRead, log, Ledger.reply, Call.answer]
  refine ⟨hledger, ?_⟩
  rw [hledger]
  have hrecorded := h.recorded
  rw [h.ledger] at hrecorded
  refine { hrecorded with answered := ?_ }
  intro a ha
  rcases List.mem_append.mp ha with ha | ha
  · exact hrecorded.answered a ha
  · obtain ⟨callback', -, rfl⟩ := List.mem_map.mp ha
    exact hover

theorem Replied.last {id : Nat} (h : Replied l id readCallback answer s) (frame : Option Frame) :
    Replied l id readCallback answer { s with running := frame } :=
  ⟨h.ledger, h.recorded⟩

theorem Silent.reportRead (h : Silent l readCallback s)
    (hover : ∃ c ∈ l.completed, c.request.id = request.id) (chunk : Option Chunk) (error : Error) :
    Replied l request.id readCallback (fun callback => ⟨callback, chunk, error⟩)
      (s.reportRead chunk error request) := by
  unfold File.reportRead
  split
  next hnull =>
    have hnone : readCallback = none := h.readCallback.symm.trans hnull
    exact ⟨by simp [hnone, Ledger.reply, h.ledger], h.recorded⟩
  next callback hcallback =>
    exact (h.callRead (h.readCallback.symm.trans hcallback) hover chunk error).last _

theorem Silent.replied (h : Silent l readCallback s) {called : Option Nat} (hnone : called = none)
    (id : Nat) (answer : Nat → Answer) : Replied l id called answer s :=
  ⟨by simp [hnone, Ledger.reply, h.ledger], h.recorded⟩

theorem onReadBlock_replied (h : Recorded s) (hover : ∃ c ∈ s.completed, c.request.id = request.id)
    (offset : Nat) (outcome : ReadOutcome) :
    Replied s.ledger request.id (s.called outcome)
      (Completion.ownAnswer ⟨request, outcome, s.isOpen⟩ offset)
      (s.onReadBlock request offset outcome) := by
  have hsilent := h.silent
  unfold onReadBlock
  cases hopen : s.isOpen with
  | false =>
      have hcalled : s.called outcome = s.readCallback := by
        cases outcome <;> simp [called, speaks, hopen]
      rw [hcalled]
      exact hsilent.reportRead hover none (.ofCode .fileNotOpen)
  | true =>
      cases outcome with
      | failed error => exact hsilent.reportRead hover none error
      | endOfFile =>
          exact hsilent.replied (by simp [called, speaks, hopen]) ..
      | data size =>
          exact hsilent.reportRead hover (some ⟨⟨request.descriptor, offset, size⟩, offset⟩) {}

theorem Silent.reset_reportRead (h : Silent l readCallback s)
    (hover : ∃ c ∈ l.completed, c.request.id = request.id) (i : Nat) (refusal : Option Failure)
    (error : Error) :
    Replied l request.id readCallback (fun callback => ⟨callback, none, error⟩)
      ((s.resetBuf i refusal).1.reportRead none error request) :=
  ((keptByReads_silent l readCallback).resetBuf h i refusal).reportRead hover none error

theorem onRead_replied (h : Recorded s) (hover : ∃ c ∈ s.completed, c.request.id = request.id)
    (i : Nat) (span : Span) (outcome : ReadOutcome) (refusal : Option Failure) :
    ∃ answer : Nat → Answer, (∀ callback, (answer callback).callback = callback) ∧
      Replied s.ledger request.id (s.called outcome) answer
        (s.onRead request i span outcome refusal) := by
  have hsilent := h.silent
  unfold onRead
  cases hopen : s.isOpen with
  | false =>
      have hcalled : s.called outcome = s.readCallback := by
        cases outcome <;> simp [called, speaks, hopen]
      rw [hcalled]
      exact ⟨_, fun _ => rfl, hsilent.reset_reportRead hover i refusal (.ofCode .fileNotOpen)⟩
  | true =>
      have hlow : ∀ doneRead, Silent s.ledger s.readCallback
          { s with readInProgress := false, doneRead := doneRead } :=
        fun doneRead => ⟨rfl, rfl, h⟩
      cases outcome with
      | failed error =>
          exact ⟨_, fun _ => rfl, (hlow true).reset_reportRead hover i refusal error⟩
      | endOfFile =>
          have hcalled : s.called .endOfFile = none := by simp [called, speaks, hopen]
          refine ⟨fun callback => ⟨callback, none, {}⟩, fun _ => rfl, ?_⟩
          simp only [hcalled, Bool.not_true, Bool.false_eq_true, if_false]
          split
          · exact ((keptByReads_silent s.ledger s.readCallback).endWithReset
              (fun _ h => h.last _) (hlow true) i refusal).replied rfl ..
          next callback _ =>
            have hlog := ledger_log (rfl : (Call.endRead callback).answer = none)
              { s with readInProgress := false, doneRead := true }
            refine Silent.replied (l := s.ledger) (s := { File.log
              { s with readInProgress := false, doneRead := true } (.endRead callback) with
                running := some (.ended i) }) ⟨hlog, rfl, ?_⟩ rfl ..
            change Numbered (File.log _ _).ledger _ _
            rw [hlog]
            exact h
      | data size =>
          have hcalled : s.called (.data size) = s.readCallback := rfl
          simp only [hcalled, Bool.not_true, Bool.false_eq_true, if_false]
          split
          next hnull =>
            refine ⟨fun callback => ⟨callback, none, {}⟩, fun _ => rfl, ?_⟩
            exact ((keptByReads_silent s.ledger s.readCallback).continueReading
              (fun _ h => h.last _) (fun _ _ h => h.last _) (hlow s.doneRead) i refusal).replied
              hnull ..
          next callback hcallback =>
            exact ⟨_, fun _ => rfl, ((hlow s.doneRead).callRead hcallback hover _ {}).last _⟩

theorem Recorded.takeRead (h : Recorded s) (hmem : request ∈ s.reads) (outcome : ReadOutcome) :
    Recorded (s.takeRead request outcome) := by
  have hanswers : (s.takeRead request outcome).ledger.answers = s.ledger.answers ++ [] :=
    (List.append_nil _).symm
  refine Numbered.settle (c := ⟨request, outcome, s.isOpen⟩) h ?_ hanswers (by simp) rfl rfl
    fun _ hb => hb
  have hperm : s.reads.Perm (request :: s.reads.erase request) := List.perm_cons_erase hmem
  have hall : (s.takeRead request outcome).ledger.all (s.takeRead request outcome).reads =
      s.completed.map Completion.request ++
        ((request :: s.reads.erase request) ++ s.ledger.refused) := by
    simp [Ledger.all, ledger, File.takeRead]
  rw [hall]
  exact (hperm.symm.append_right _).append_left _

/-- A completion answers with what it finds as read callback, and answers a `read_block` with its
own outcome. -/
theorem finishRead_replied (h : Recorded s) (hmem : request ∈ s.reads) (outcome : ReadOutcome)
    (refusal : Option Failure) :
    ∃ answer : Nat → Answer, (∀ callback, (answer callback).callback = callback) ∧
      (∀ offset count, request.kind = .block offset count →
        answer = Completion.ownAnswer ⟨request, outcome, s.isOpen⟩ offset) ∧
      Replied (s.takeRead request outcome).ledger request.id
        (s.called outcome) answer
        (s.finishRead request outcome refusal) := by
  have htake := h.takeRead hmem outcome
  have hover : ∃ c ∈ (s.takeRead request outcome).completed, c.request.id = request.id :=
    ⟨_, List.mem_append_right _ (List.mem_singleton_self _), rfl⟩
  unfold finishRead
  split
  next offset count hkind =>
    refine ⟨_, ?_, ?_, onReadBlock_replied htake hover offset outcome⟩
    · intro callback
      unfold Completion.ownAnswer
      split
      · split <;> rfl
      · rfl
    · intro offset' count' hkind'
      cases hkind.symm.trans hkind'
      rfl
  next i hkind =>
    obtain ⟨answer, hcallback, hreplied⟩ := onRead_replied (s :=
      (s.takeRead request outcome).landRead request i outcome) htake hover i
      (s.spanOf request outcome) outcome refusal
    refine ⟨answer, hcallback, ?_, hreplied⟩
    intro offset count hblock
    cases hkind.symm.trans hblock

/-- The answers that a completion gives are due exactly when it finds its own callback. -/
theorem due_iff_findsOwn {s : File} {request : ReadRequest} {outcome : ReadOutcome}
    {answer : Nat → Answer} (hcallback : ∀ callback, (answer callback).callback = callback)
    (hblock : ∀ offset count, request.kind = .block offset count →
      answer = Completion.ownAnswer ⟨request, outcome, s.isOpen⟩ offset) :
    Completion.Due ⟨request, outcome, s.isOpen⟩
        ((s.called outcome).toList.map answer) ↔
      s.FindsOwn request outcome := by
  have hinj : Function.Injective answer := fun x y hxy => by
    rw [← hcallback x, ← hcallback y, hxy]
  unfold Completion.Due FindsOwn
  cases hkind : request.kind with
  | block offset count =>
      dsimp only
      rw [← hblock offset count hkind, (List.map_injective_iff.mpr hinj).eq_iff]
      cases s.called outcome <;> cases request.owner <;> simp
  | sequential i =>
      cases hcalled : s.called outcome with
      | none => simp
      | some callback => simp [hcallback, eq_comm]

theorem allDue_finishRead (h : Recorded s) (hmem : request ∈ s.reads) (outcome : ReadOutcome)
    (refusal : Option Failure) :
    Recorded (s.finishRead request outcome refusal) ∧
      ((s.finishRead request outcome refusal).AllDue ↔
        s.AllDue ∧ s.FindsOwn request outcome) := by
  obtain ⟨answer, hcallback, hblock, hreplied⟩ := finishRead_replied h hmem outcome refusal
  refine ⟨hreplied.recorded, ?_⟩
  rw [← due_iff_findsOwn hcallback hblock]
  have hanswers : (s.finishRead request outcome refusal).answers = s.answers ++
      (s.called outcome).toList.map fun callback => (request.id, answer callback) :=
    congrArg Ledger.answers hreplied.ledger
  have hcompleted : (s.finishRead request outcome refusal).completed =
      s.completed ++ [⟨request, outcome, s.isOpen⟩] := congrArg Ledger.completed hreplied.ledger
  rw [allDue_settle h (c := ⟨request, outcome, s.isOpen⟩) (List.mem_append_left _ hmem) hanswers
    (by simp) hcompleted, List.map_map]
  rfl

/-! ## Steps -/

variable {refusal : Option Failure} {rest : List Job} {e : Event}

theorem Silent.allDue (h : Silent l readCallback s') (hl : l = s.ledger) :
    Recorded s' ∧ (s'.AllDue ↔ s.AllDue) :=
  ⟨h.recorded, allDue_of_ledger (h.ledger.trans hl)⟩

theorem Elsewhere.allDue (h : Elsewhere s s') (hs : Recorded s) :
    Recorded s' ∧ (s'.AllDue ↔ s.AllDue) :=
  ⟨h.recorded hs, allDue_of_ledger h.ledger⟩

section

variable (h : Recorded s)
include h

theorem allDue_readBlock (offset count : Nat) (readCallback : Option Nat)
    (refusal : Option Failure) {s' : File}
    (hs' : { s.readBlock offset count readCallback refusal with
      blocks := s.blocks ++
        s.fileHandle.toList.map (s.blockRequest · offset count readCallback) } = s') :
    Recorded s' ∧ (s'.AllDue ↔ s.AllDue) := by
  subst hs'
  cases hhandle : s.fileHandle with
  | none =>
      rw [Option.toList_none, List.map_nil, List.append_nil]
      refine Elsewhere.allDue (?_ : Elsewhere s _) h
      unfold readBlock
      rw [hhandle]
      dsimp only
      split
      · exact ⟨rfl, rfl, Nat.le_refl _⟩
      · exact ⟨ledger_log rfl s, rfl, Nat.le_refl _⟩
  | some descriptor =>
      obtain ⟨reads, scheduled, heq, hcases⟩ :=
        readBlock_eq hhandle offset count readCallback refusal
      rw [heq]
      refine ⟨?_, allDue_congr rfl rfl⟩
      have hblocks : ∀ b ∈ s.blocks ++ [s.blockRequest descriptor offset count readCallback],
          b ∈ s.blocks ∨ b = s.blockRequest descriptor offset count readCallback := by
        simp
      rcases hcases with ⟨rfl, rfl⟩ | ⟨rfl, hnull, rfl⟩ | ⟨rfl, hcallback, error, rfl⟩
      · exact Numbered.enter h rfl (all_submit ..) rfl rfl hblocks fun b hb => .inl hb
      · refine { Numbered.mono h (Nat.le_succ _) with blocks := ?_ }
        intro b hb howner
        rcases hblocks b hb with hb | rfl
        · exact h.blocks b hb howner
        · exact absurd hnull howner
      · refine Numbered.enter h rfl ?_ rfl rfl hblocks ?_
        · simp only [Ledger.all, ledger, List.filterMap_append, List.filterMap_cons, Job.refused,
            List.filterMap_nil, ← List.append_assoc]
          exact List.perm_append_singleton _ _
        · intro b hb
          simp only [ledger, List.filterMap_append, List.filterMap_cons, Job.refused,
            List.filterMap_nil] at hb
          rcases List.mem_append.mp hb with hb | hb
          · exact .inl hb
          · rw [List.mem_singleton.mp hb]
            exact .inr ⟨rfl, hcallback⟩

theorem allDue_read (readCallback endReadCallback : Option Nat) (refusal : Option Failure) :
    Recorded (s.read readCallback endReadCallback refusal) ∧
      ((s.read readCallback endReadCallback refusal).AllDue ↔ s.AllDue) := by
  unfold read
  split
  · split
    · exact ⟨h, Iff.rfl⟩
    · exact Elsewhere.allDue ⟨ledger_log rfl s, rfl, Nat.le_refl _⟩ h
  · exact ((keptByReads_silent s.ledger readCallback).scheduleRead (s :=
      { s with
        readCallback := readCallback
        endReadCallback := endReadCallback
        doneRead := false
        registeredIn := s.opens
        readOwner := readCallback }) ⟨rfl, rfl, h⟩ refusal).allDue rfl

theorem allDue_userCall {call : UserCall} (hcall : s.userCall refusal call = some s') :
    Recorded s' ∧ (s'.AllDue ↔ s.AllDue) := by
  cases call with
  | openFile callback =>
      cases hcall
      exact (elsewhere_openFile { s with passed := s.passed ++ callback.toList } callback
        refusal).allDue h
  | close callback =>
      cases hcall
      exact (elsewhere_close ..).allDue h
  | read readCallback endReadCallback =>
      cases hcall
      exact allDue_read h ..
  | readBlock offset count readCallback =>
      exact allDue_readBlock h _ _ _ _ (Option.some.inj hcall)
  | keep =>
      obtain ⟨i, size, span, -, -, rfl⟩ := userCall_keep_eq_some.mp hcall
      exact ⟨h, Iff.rfl⟩
  | release index =>
      obtain ⟨held, -, rfl⟩ := userCall_release_eq_some.mp hcall
      exact ((keptByReads_silent s.ledger s.readCallback).release
        (fun _ _ h => ⟨h.ledger, h.readCallback, h.recorded⟩) h.silent index held.buffer
        refusal).allDue rfl

theorem allDue_resume (refusal : Option Failure) (frame : Frame) :
    Recorded (s.resume refusal frame) ∧ ((s.resume refusal frame).AllDue ↔ s.AllDue) := by
  cases frame with
  | last => exact ⟨h, Iff.rfl⟩
  | opened => exact ⟨h, Iff.rfl⟩
  | openFailed => exact ⟨h, Iff.rfl⟩
  | closed => exact (elsewhere_afterClose s).allDue h
  | delivered i size =>
      exact ((keptByReads_silent s.ledger s.readCallback).continueReading (fun _ h => h.last _)
        (fun _ _ h => h.last _) (s := { s with currentOffset := s.currentOffset + size })
        ⟨rfl, rfl, h⟩ i refusal).allDue rfl
  | ended i =>
      exact ((keptByReads_silent s.ledger s.readCallback).endWithReset (fun _ h => h.last _)
        h.silent i refusal).allDue rfl
  | refused i =>
      exact ((keptByReads_silent s.ledger s.readCallback).endWithReset (fun _ h => h.last _)
        h.silent i refusal).allDue rfl

/-- The refusal of a `read_block` is reported to its own callback. -/
theorem allDue_blockRefused {error : Failure}
    (hjobs : s.scheduled = .blockRefused request error :: rest) (refusal : Option Failure) :
    Recorded ({ s with scheduled := rest }.runJob refusal (.blockRefused request error)) ∧
      (({ s with scheduled := rest }.runJob refusal (.blockRefused request error)).AllDue ↔
        s.AllDue) := by
  have hrefused : s.ledger.refused = request :: rest.filterMap Job.refused := by
    simp [ledger, hjobs, Job.refused]
  have hmem : request ∈ s.ledger.refused := by
    rw [hrefused]
    exact List.mem_cons_self
  obtain ⟨hkind, howner⟩ := h.refused request hmem
  obtain ⟨callback, hcallback⟩ := Option.ne_none_iff_exists'.mp howner
  have hrun : { s with scheduled := rest }.runJob refusal (.blockRefused request error) =
      { ({ s with scheduled := rest } : File).answerRefused callback request error with
        running := some .last } := by
    simp only [runJob, hcallback]
  rw [hrun]
  have hanswers : (({ s with scheduled := rest } : File).answerRefused callback request
      error).answers = s.answers ++ [(request.id, ⟨callback, none, error⟩)] := by
    simp [answers, answerRefused, log, Call.answer]
  constructor
  · refine Numbered.settle (c := ⟨request, .failed error, true⟩) h ?_ hanswers (by simp) rfl rfl ?_
    · have hall : s.ledger.all s.reads = s.completed.map Completion.request ++
          (s.reads ++ request :: rest.filterMap Job.refused) := by
        rw [Ledger.all, hrefused]
        rfl
      rw [hall]
      simp only [Ledger.all, ledger, answerRefused, log, List.map_append, List.map_cons,
        List.map_nil, List.append_assoc, List.singleton_append]
      exact List.perm_middle.symm.append_left _
    · intro b hb
      rw [hrefused]
      exact List.mem_cons_of_mem _ hb
  · have hdue := allDue_settle h (c := ⟨request, .failed error, true⟩)
      (List.mem_append_right _ hmem) hanswers (by simp) rfl
    refine hdue.trans (and_iff_left ?_)
    unfold Completion.Due
    cases hblock : request.kind with
    | sequential i => simp [hblock, ReadKind.isSequential] at hkind
    | block offset count => simp [hcallback, Completion.ownAnswer]

theorem allDue_runJob (hjobs : s.scheduled = job :: rest) (refusal : Option Failure) :
    Recorded ({ s with scheduled := rest }.runJob refusal job) ∧
      (({ s with scheduled := rest }.runJob refusal job).AllDue ↔ s.AllDue) := by
  have hrest : job.refused = none → Elsewhere s { s with scheduled := rest } := by
    intro hjob
    refine ⟨?_, rfl, Nat.le_refl _⟩
    simp [ledger, answers, hjobs, hjob]
  cases job with
  | openFile callback => exact ((hrest rfl).trans (elsewhere_openFile ..)).allDue h
  | closeNotOpen callback =>
      have hcall := (hrest rfl).trans
        (elsewhere_runCloseCallback { s with scheduled := rest } callback (.ofCode .fileNotOpen))
      dsimp only [runJob]
      split
      next heq =>
        rw [heq] at hcall
        exact (hcall.trans ⟨rfl, rfl, Nat.le_refl _⟩).allDue h
      next heq =>
        rw [heq] at hcall
        exact hcall.allDue h
  | closeRefused callback error => exact ((hrest rfl).trans (elsewhere_reportClose ..)).allDue h
  | blockRefused request error => exact allDue_blockRefused h hjobs refusal

end

/-- In a step that completes no read there is nothing to find. -/
theorem allDue_other (h : Recorded s' ∧ (s'.AllDue ↔ s.AllDue)) (hother : CompletesOwn s e) :
    Recorded s' ∧ (s'.AllDue ↔ s.AllDue ∧ CompletesOwn s e) :=
  ⟨h.1, h.2.trans (and_iff_left hother).symm⟩

theorem allDue_turnover {turn : Turnover} (h : Recorded s)
    (hturn : s.turnover refusal turn = some s') :
    Recorded s' ∧ (s'.AllDue ↔ s.AllDue ∧ CompletesOwn s (.loop turn refusal)) := by
  cases turn with
  | scheduled =>
      obtain ⟨job, rest, hjobs, rfl⟩ := turnover_scheduled_eq_some.mp hturn
      exact allDue_other (allDue_runJob h hjobs refusal) trivial
  | opened id error =>
      obtain ⟨request, -, rfl⟩ := turnover_opened_eq_some.mp hturn
      refine allDue_other ?_ trivial
      split
      · exact (elsewhere_onOpen
          { s with openRequests := s.openRequests.erase request } error).allDue h
      · exact ⟨h, Iff.rfl⟩
  | closed callback error =>
      obtain ⟨-, rfl⟩ := turnover_closed_eq_some.mp hturn
      refine allDue_other ?_ trivial
      exact (elsewhere_reportClose
        { s with
          closeRequests := s.closeRequests.erase callback
          fileHandle := none
          state := .closed } callback error).allDue h
  | readDone id outcome =>
      obtain ⟨request, hfind, -, rfl⟩ := turnover_readDone_eq_some.mp hturn
      have hgood : CompletesOwn s (.loop (.readDone id outcome) refusal) ↔
          s.FindsOwn request outcome := by
        simp [CompletesOwn, hfind]
      rw [hgood]
      exact allDue_finishRead h (mem_of_readRequest hfind) outcome refusal

/-- A step keeps the ledger, and leaves all answers as they are due exactly when they were and the
read that completes finds its own callback. -/
theorem allDue_step (h : Recorded s) (hstep : s.step e = some s') :
    Recorded s' ∧ (s'.AllDue ↔ s.AllDue ∧ CompletesOwn s e) := by
  cases e with
  | call call refusal => exact allDue_other (allDue_userCall h hstep) trivial
  | leave refusal =>
      obtain ⟨frame, -, rfl⟩ := step_leave_eq_some.mp hstep
      exact allDue_other (allDue_resume (s := { s with running := none }) h refusal frame) trivial
  | loop turn refusal => exact allDue_turnover h (step_loop_eq_some.mp hstep).2

/-! ## Runs -/

theorem recorded_initial : Recorded {} :=
  ⟨by simp [Ledger.all, ledger], by simp [Ledger.all, ledger], by simp [ledger, answers],
    by simp [ledger], by simp [ledger]⟩

/-- Each `read_block` that is over was answered once, to its own callback, with the bytes at its
offset or its outcome, and sequential reads were answered to their own callbacks, exactly when each
read that completed found its own callback and no `read_block` with a callback ended in zero bytes
on the open file. At rest, every `read_block` with a callback is over. -/
theorem overlapping_reads_answered_iff {run : List Event} {s : File}
    (h : exec step {} run = some s) :
    (s.AllDue ↔ Along step CompletesOwn {} run) ∧
      (s.reads = [] → s.scheduled = [] →
        ∀ r ∈ s.blocks, r.owner ≠ none → ∃ c ∈ s.completed, c.request = r) ∧
      ∀ a ∈ s.answers, ∃ c ∈ s.completed, c.request.id = a.1 := by
  have hkeep : ∀ s e s', Recorded s → step s e = some s' → Recorded s' :=
    fun _ _ _ hs hstep => (allDue_step hs hstep).1
  have hrecorded := exec_invariant hkeep recorded_initial h
  refine ⟨?_, ?_, hrecorded.answered⟩
  · rw [exec_iff_along hkeep (fun _ _ _ hs hstep => (allDue_step hs hstep).2) recorded_initial h,
      and_iff_right]
    simp [AllDue]
  · intro hreads hscheduled r hr howner
    have hmem := hrecorded.blocks r hr howner
    simpa [Ledger.all, ledger, hreads, hscheduled] using hmem

/-- Two blocks are read at once with one callback, and the second is there first. -/
def readTwoBlocks : List Event :=
  [.call (.openFile (some 0)) none, .loop (.opened 0 {}) none, .leave none,
    .call (.readBlock 10 4 (some 1)) none, .call (.readBlock 20 4 (some 1)) none,
    .loop (.readDone 2 (.data 3)) none, .leave none, .loop (.readDone 1 (.data 4)) none,
    .leave none]

theorem overlapping_reads_answered_iff_twoBlocks :
    ∃ s ∈ exec step {} readTwoBlocks, s.AllDue ∧
      s.answers = [(2, ⟨1, some ⟨⟨1, 20, 3⟩, 20⟩, {}⟩), (1, ⟨1, some ⟨⟨1, 10, 4⟩, 10⟩, {}⟩)] := by
  have h : ∃ s ∈ exec step {} readTwoBlocks,
      s.answers = [(2, ⟨1, some ⟨⟨1, 20, 3⟩, 20⟩, {}⟩), (1, ⟨1, some ⟨⟨1, 10, 4⟩, 10⟩, {}⟩)] := by
    decide +kernel
  obtain ⟨s, hs, hanswers⟩ := h
  exact ⟨s, hs, (overlapping_reads_answered_iff hs).1.mpr (by decide +kernel), hanswers⟩

def readBlocksAtOnce : List Event :=
  [.call (.openFile (some 0)) none, .loop (.opened 0 {}) none, .leave none,
    .call (.readBlock 10 4 (some 1)) none, .call (.readBlock 20 4 (some 2)) none,
    .loop (.readDone 1 (.data 4)) none, .leave none, .loop (.readDone 2 (.data 3)) none,
    .leave none]

def readBlockAtEnd : List Event :=
  [.call (.openFile (some 0)) none, .loop (.opened 0 {}) none, .leave none,
    .call (.readBlock 10 4 (some 1)) none, .loop (.readDone 1 .endOfFile) none]

/-- Both blocks are answered to the second callback, and the callback of the third is not called,
though no read is left. -/
theorem block_answered_to_other :
    (∃ s ∈ exec step {} readBlocksAtOnce, s.reads = [] ∧ s.scheduled = [] ∧
      s.blocks.map ReadRequest.owner = [some 1, some 2] ∧
      s.answers = [(1, ⟨2, some ⟨⟨1, 10, 4⟩, 10⟩, {}⟩), (2, ⟨2, some ⟨⟨1, 20, 3⟩, 20⟩, {}⟩)]) ∧
    ∃ s ∈ exec step {} readBlockAtEnd, s.reads = [] ∧ s.scheduled = [] ∧
      s.blocks.map ReadRequest.owner = [some 1] ∧ s.answers = [] := by
  decide +kernel

end File

end TarmIo.Fs
