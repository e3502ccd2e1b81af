import TarmIo.Fs.Dir

/-!
# The two modes of listing a directory

`list` with a plain callback looks for a close after every entry, and with a continuation it
looks at the continuation only. Here a directory is listed in either mode while libuv reports a
given sequence of results and the user calls `close` in given list callbacks; the continuation is
never stopped. Apart from that the loop may run scheduled callbacks at any time, among them the
`close` that waits for the listing and schedules itself again.
-/

namespace TarmIo.Fs.Dir

open Foundation

/-! ## A listing and what is seen of it -/

/-- A list callback, a call of `close` in it, or an end-of-list callback. -/
inductive Mark
  | entry (name : String) (type : DirectoryEntryType)
  | closeCalled
  | ended (error : Error)
deriving DecidableEq

def Call.mark : Call → Option Mark
  | .entry _ name type => some (.entry name type)
  | .endList _ error => some (.ended error)
  | .opened .. | .closed .. => none

abbrev Entry := String × UvDirentType

def status : Option Failure → Error
  | none => {}
  | some error => error

/-- The results of `uv_fs_readdir`: entries, and then the end of the directory or an error. -/
def outcomes (final : Option Failure) (entries : List Entry) : List ReadDirOutcome :=
  entries.map (fun entry => .entry entry.1 entry.2) ++
    [match final with
      | none => .endOfDir
      | some error => .failed error]

/-- A directory in the course of a listing: the results that were not reported yet, the number of
list callbacks that have returned, and what was seen. -/
structure Listing where
  dir : Dir
  unread : List ReadDirOutcome
  returned : Nat := 0
  log : List Mark := []

inductive Move
  | read
  | turn
  | callback
deriving DecidableEq

namespace Listing

def follow (x : Listing) (dir : Dir) : Listing :=
  { x with dir, log := x.log ++ (dir.calls.drop x.dir.calls.length).filterMap Call.mark }

/-- `closes n` are the callbacks passed to `close` in the list callback number `n`. -/
def step (request : ListRequest) (closes : Nat → List (Option Nat)) (x : Listing) :
    Move → Option Listing
  | .read =>
      match x.unread with
      | [] => none
      | outcome :: unread =>
          (x.dir.step (.loop (.readDone request outcome))).map fun dir =>
            { x.follow dir with unread }
  | .turn => (x.dir.step (.loop .scheduled)).map x.follow
  | .callback =>
      match x.dir.running with
      | some (.listed ..) =>
          let calls := (closes x.returned).map fun callback => Event.call (.close callback)
          (exec Dir.step x.dir (calls ++ [.leave])).map fun dir =>
            { x with
              log := x.log ++ (closes x.returned).map fun _ => Mark.closeCalled
              returned := x.returned + 1 }.follow dir
      | _ => (x.dir.step .leave).map x.follow

end Listing

def beginList (s : Dir) (request : ListRequest) (final : Option Failure) (entries : List Entry) :
    Listing where
  dir := s.list request none
  unread := outcomes final entries

def listRequest (withContinuation : Bool) (list endList : Nat) : ListRequest where
  withContinuation := withContinuation
  listCallback := some list
  endListCallback := some endList

/-- The directory is open and nothing is under way. `list` may be called in a callback, such as
that of `open`. -/
structure ReadyToList (s : Dir) : Prop where
  state : s.state = .opened
  isOpen : s.isOpen = true
  readRequest : s.readRequest = none
  reads : s.reads = []
  scheduled : s.scheduled = []
  running : s.running = none ∨ s.running = some .last

/-! ## What is seen of a whole listing -/

/-- In the mode that stops, a close in a list callback ends the listing with `OK`. -/
def marksFrom (stops : Bool) (closes : Nat → List (Option Nat)) (final : Option Failure) :
    Nat → List Entry → List Mark
  | _, [] => [.ended (status final)]
  | n, entry :: entries =>
      .entry entry.1 (convertDirentryType entry.2) ::
        ((closes n).map (fun _ => .closeCalled) ++
          if stops ∧ closes n ≠ [] then [.ended {}]
          else marksFrom stops closes final (n + 1) entries)

namespace Listing

variable {request : ListRequest} {closes : Nat → List (Option Nat)} {final : Option Failure}
variable {dir : Dir}

  {total : List Mark} {x y : Listing}

structure Going (request : ListRequest) (x : Listing) : Prop where
  isOpen : x.dir.isOpen = true
  readRequest : x.dir.readRequest = some request
  jobs : ∀ job ∈ x.dir.scheduled, ∃ callback, job = .close (.user callback)
  calm : request.withContinuation = false → x.dir.state = .opened ∧ x.dir.scheduled = []

structure Waiting (request : ListRequest) (closes : Nat → List (Option Nat))
    (final : Option Failure) (total : List Mark) (entries : List Entry) (x : Listing) : Prop where
  going : Going request x
  reads : x.dir.reads = [request]
  running : x.dir.running = none ∨ x.dir.running = some .last
  unread : x.unread = outcomes final entries
  log : x.log ++ marksFrom (!request.withContinuation) closes final x.returned entries = total

structure InCallback (request : ListRequest) (closes : Nat → List (Option Nat))
    (final : Option Failure) (total : List Mark) (entries : List Entry) (x : Listing) : Prop where
  going : Going request x
  reads : x.dir.reads = []
  running : x.dir.running = some (.listed request true)
  unread : x.unread = outcomes final entries
  log : x.log ++ ((closes x.returned).map (fun _ => Mark.closeCalled) ++
      if (!request.withContinuation) = true ∧ closes x.returned ≠ [] then [.ended {}]
      else marksFrom (!request.withContinuation) closes final (x.returned + 1) entries) = total

structure Ended (total : List Mark) (x : Listing) : Prop where
  readRequest : x.dir.readRequest = none
  reads : x.dir.reads = []
  running : x.dir.running = none ∨ x.dir.running = some .last
  jobs : ∀ job ∈ x.dir.scheduled, ∃ callback, job = .close (.user callback)
  log : x.log = total

theorem follow_log {new : List Call} (h : dir.calls = x.dir.calls ++ new) :
    (x.follow dir).log = x.log ++ new.filterMap Call.mark := by
  simp [follow, h]

theorem follow_log_same (h : dir.calls = x.dir.calls) : (x.follow dir).log = x.log := by
  simp [follow, h]

/-! ## The steps of a listing -/

variable {d : Dir}

theorem close_reading (hopen : d.isOpen = true) (hread : d.readRequest = some request)
    (callback : CloseCallback) :
    d.close callback = { d with state := .wantClose }.schedule (.close callback) := by
  simp [Dir.close, hopen, hread]

/-- A scheduled close puts itself off again. -/
theorem Going.turn (h : Going request x) (hstep : x.step request closes .turn = some y) :
    Going request y ∧ y.dir.reads = x.dir.reads ∧ y.dir.running = x.dir.running ∧
      y.unread = x.unread ∧ y.returned = x.returned ∧ y.log = x.log := by
  obtain ⟨dir, hdir, rfl⟩ := Option.map_eq_some_iff.mp hstep
  obtain ⟨hrunning, hturn⟩ : x.dir.running = none ∧ x.dir.turnover .scheduled = some dir := by
    simpa [Dir.step] using hdir
  cases hscheduled : x.dir.scheduled with
  | nil => simp [turnover, hscheduled] at hturn
  | cons job rest =>
      obtain ⟨callback, rfl⟩ := h.jobs job (by simp [hscheduled])
      have hcont : request.withContinuation = true := by
        rw [← Bool.not_eq_false]
        intro hplain
        have hnone := (h.calm hplain).2
        rw [hscheduled] at hnone
        cases hnone
      have hclose : dir =
          { x.dir with
            scheduled := rest ++ [.close (.user callback)]
            state := .wantClose } := by
        rw [turnover, hscheduled] at hturn
        rw [← Option.some.inj hturn]
        exact close_reading (d := { x.dir with scheduled := rest }) h.isOpen h.readRequest _
      subst hclose
      refine ⟨⟨h.isOpen, h.readRequest, ?_, ?_⟩, rfl, rfl, rfl, rfl, follow_log_same rfl⟩
      · intro job hjob
        rcases List.mem_append.mp hjob with hold | hnew
        · exact h.jobs job (by rw [hscheduled]; exact List.mem_cons_of_mem _ hold)
        · exact ⟨callback, List.mem_singleton.mp hnew⟩
      · intro hplain
        cases hcont.symm.trans hplain

def closedIn (d : Dir) (callbacks : List (Option Nat)) : Dir :=
  { d with
    state := if callbacks = [] then d.state else .wantClose
    scheduled := d.scheduled ++ callbacks.map fun callback => .close (.user callback) }

theorem exec_closes (hopen : d.isOpen = true) (hread : d.readRequest = some request)
    (callbacks : List (Option Nat)) :
    exec Dir.step d (callbacks.map fun callback => .call (.close callback)) =
      some (closedIn d callbacks) := by
  induction callbacks generalizing d with
  | nil => simp [exec, closedIn]
  | cons callback callbacks ih =>
      have hclose := close_reading hopen hread (.user callback)
      have hrest : exec Dir.step (d.close (.user callback))
          (callbacks.map fun callback => .call (.close callback)) =
            some (closedIn (d.close (.user callback)) callbacks) :=
        ih (by rw [hclose]; exact hopen) (by rw [hclose]; exact hread)
      have hstep : d.step (.call (.close callback)) = some (d.close (.user callback)) := rfl
      rw [List.map_cons, exec_cons_of_step hstep, hrest, hclose]
      simp [closedIn, schedule]

theorem step_read {outcome : ReadDirOutcome} {unread : List ReadDirOutcome}
    (hunread : x.unread = outcome :: unread)
    (hdir : x.dir.step (.loop (.readDone request outcome)) = some dir) :
    x.step request closes .read = some { x.follow dir with unread } := by
  simp [step, hunread, hdir]

section Steps

variable {list endList : Nat} {withContinuation : Bool} {entries : List Entry} {entry : Entry}

/-- The next entry is reported. -/
theorem Waiting.read_entry
    (h : Waiting (listRequest withContinuation list endList) closes final total
      (entry :: entries) x) (hrunning : x.dir.running = none) :
    ∃ y, x.step (listRequest withContinuation list endList) closes .read = some y ∧
      InCallback (listRequest withContinuation list endList) closes final total entries y := by
  have hstep : x.dir.step (.loop (.readDone (listRequest withContinuation list endList)
        (.entry entry.1 entry.2))) =
      some { x.dir with
        reads := []
        calls := x.dir.calls ++ [.entry list entry.1 (convertDirentryType entry.2)]
        running := some (.listed (listRequest withContinuation list endList) true) } := by
    simp [Dir.step, turnover, hrunning, h.reads, onReadDir, listRequest, Dir.log]
  refine ⟨_, step_read h.unread hstep, ?_⟩
  refine ⟨⟨h.going.isOpen, h.going.readRequest, h.going.jobs, h.going.calm⟩, rfl, rfl, rfl, ?_⟩
  rw [← h.log]
  change (x.follow _).log ++ _ = _
  rw [follow_log rfl, marksFrom]
  simp [follow, Call.mark]

theorem Waiting.read_end
    (h : Waiting (listRequest withContinuation list endList) closes final total [] x)
    (hrunning : x.dir.running = none) :
    ∃ y, x.step (listRequest withContinuation list endList) closes .read = some y ∧
      Ended total y := by
  have hstep : ∃ outcome, outcomes final [] = [outcome] ∧
      x.dir.step (.loop (.readDone (listRequest withContinuation list endList) outcome)) =
      some { x.dir with
        reads := []
        readRequest := none
        calls := x.dir.calls ++ [.endList endList (status final)]
        running := some .last } := by
    cases final with
    | none =>
        exact ⟨_, rfl, by
          simp [Dir.step, turnover, hrunning, h.reads, onReadDir, listRequest, Dir.endList, Dir.log,
            status]⟩
    | some error =>
        exact ⟨_, rfl, by
          simp [Dir.step, turnover, hrunning, h.reads, onReadDir, listRequest, Dir.endList, Dir.log,
            status]⟩
  obtain ⟨outcome, houtcome, hstep⟩ := hstep
  refine ⟨_, step_read (h.unread.trans houtcome) hstep, ?_⟩
  refine ⟨rfl, rfl, .inr rfl, h.going.jobs, ?_⟩
  rw [← h.log]
  change (x.follow _).log = _
  rw [follow_log rfl, marksFrom]
  rfl

theorem Waiting.callback (h : Waiting request closes final total entries x)
    (hrunning : x.dir.running = some .last) :
    ∃ y, x.step request closes .callback = some y ∧
      Waiting request closes final total entries y ∧ y.dir.running = none := by
  have hstep : x.dir.step .leave = some { x.dir with running := none } := by
    simp [Dir.step, hrunning, resume]
  refine ⟨x.follow { x.dir with running := none }, by simp [step, hrunning, hstep], ?_, rfl⟩
  refine ⟨⟨h.going.isOpen, h.going.readRequest, h.going.jobs, h.going.calm⟩, h.reads, .inl rfl,
    h.unread, ?_⟩
  rw [show (x.follow { x.dir with running := none }).log = x.log from follow_log_same rfl]
  exact h.log

theorem InCallback.step_callback
    (h : InCallback (listRequest withContinuation list endList) closes final total entries x) :
    x.step (listRequest withContinuation list endList) closes .callback =
      some ({ x with
        log := x.log ++ (closes x.returned).map fun _ => Mark.closeCalled
        returned := x.returned + 1 }.follow
          ({ closedIn x.dir (closes x.returned) with running := none }.afterEntry
            (listRequest withContinuation list endList) true)) := by
  have hclosed := exec_closes h.going.isOpen h.going.readRequest (closes x.returned)
  have hexec : exec Dir.step x.dir
      (((closes x.returned).map fun callback => Event.call (.close callback)) ++ [.leave]) =
        some ({ closedIn x.dir (closes x.returned) with running := none }.afterEntry
          (listRequest withContinuation list endList) true) := by
    rw [exec_append_of_exec hclosed]
    simp [exec, Dir.step, closedIn, h.running, resume]
  rw [step, h.running]
  dsimp only
  rw [hexec]
  rfl

/-- The calls of `close` in the callback are put off. -/
theorem InCallback.jobs
    (h : InCallback (listRequest withContinuation list endList) closes final total entries x) :
    ∀ job ∈ x.dir.scheduled ++
      (closes x.returned).map (fun callback => Job.close (.user callback)),
        ∃ callback, job = .close (.user callback) := by
  intro job hjob
  rcases List.mem_append.mp hjob with hold | hnew
  · exact h.going.jobs job hold
  · obtain ⟨callback, _, rfl⟩ := List.mem_map.mp hnew
    exact ⟨callback, rfl⟩

/-- With a continuation the listing goes on, whether `close` was called or not. -/
theorem InCallback.callback_continuation
    (h : InCallback (listRequest true list endList) closes final total entries x) :
    ∃ y, x.step (listRequest true list endList) closes .callback = some y ∧
      Waiting (listRequest true list endList) closes final total entries y ∧
      y.dir.running = none := by
  refine ⟨_, h.step_callback, ⟨⟨h.going.isOpen, h.going.readRequest, h.jobs, ?_⟩, ?_, .inl rfl,
    h.unread, ?_⟩, rfl⟩
  · intro hplain
    cases hplain
  · exact congrArg (· ++ [_]) h.reads
  · rw [← h.log]
    simp [follow, afterEntry, listRequest, readAgain, closedIn]

/-- The plain mode goes on if `close` was not called, and ends the listing otherwise. -/
theorem InCallback.callback_plain
    (h : InCallback (listRequest false list endList) closes final total entries x) :
    ∃ y, x.step (listRequest false list endList) closes .callback = some y ∧
      (Waiting (listRequest false list endList) closes final total entries y ∧
          y.dir.running = none ∨
        Ended total y) := by
  obtain ⟨hstate, hscheduled⟩ := h.going.calm rfl
  have hstep := h.step_callback
  by_cases hnone : closes x.returned = []
  · have hafter : { closedIn x.dir (closes x.returned) with running := none }.afterEntry
        (listRequest false list endList) true =
          { x.dir with running := none, reads := [listRequest false list endList] } := by
      simp [afterEntry, listRequest, closedIn, hnone, hstate, readAgain, h.reads]
    rw [hafter] at hstep
    refine ⟨_, hstep, .inl ⟨⟨⟨h.going.isOpen, h.going.readRequest, h.going.jobs,
      fun _ => ⟨hstate, hscheduled⟩⟩, rfl, .inl rfl, h.unread, ?_⟩, rfl⟩⟩
    rw [← h.log]
    simp [follow, hnone]
  · have hafter : { closedIn x.dir (closes x.returned) with running := none }.afterEntry
        (listRequest false list endList) true =
          { closedIn x.dir (closes x.returned) with
            running := some .last
            readRequest := none
            calls := x.dir.calls ++ [.endList endList {}] } := by
      simp [afterEntry, listRequest, closedIn, hnone, Dir.endList, Dir.log]
    rw [hafter] at hstep
    refine ⟨_, hstep, .inr ⟨rfl, h.reads, .inr rfl, h.jobs, ?_⟩⟩
    rw [← h.log]
    simp [follow, hnone, listRequest, Call.mark]

/-- The list callback returns: the listing goes on, or the plain mode has seen a close. -/
theorem InCallback.callback
    (h : InCallback (listRequest withContinuation list endList) closes final total entries x) :
    ∃ y, x.step (listRequest withContinuation list endList) closes .callback = some y ∧
      (Waiting (listRequest withContinuation list endList) closes final total entries y ∧
          y.dir.running = none ∨
        Ended total y) := by
  cases withContinuation with
  | true =>
      obtain ⟨y, hstep, hwaiting⟩ := h.callback_continuation
      exact ⟨y, hstep, .inl hwaiting⟩
  | false => exact h.callback_plain

end Steps

/-- A close when there is no listing makes no call that belongs to one. -/
theorem close_not_reading (hread : d.readRequest = none) (callback : Option Nat) :
    (d.close (.user callback)).readRequest = none ∧
      (d.close (.user callback)).reads = d.reads ∧
      (d.close (.user callback)).running = d.running ∧
      (d.close (.user callback)).scheduled = d.scheduled ∧
      ∃ new, (d.close (.user callback)).calls = d.calls ++ new ∧
        new.filterMap Call.mark = [] := by
  unfold Dir.close
  rw [hread, if_neg (by simp : ¬ (none : Option ListRequest).isSome = true)]
  split
  · exact ⟨hread, rfl, rfl, rfl, [], (List.append_nil _).symm, rfl⟩
  · split
    · cases callback with
      | none => exact ⟨hread, rfl, rfl, rfl, [], (List.append_nil _).symm, rfl⟩
      | some callback => exact ⟨hread, rfl, rfl, rfl, [_], rfl, rfl⟩
    · exact ⟨rfl, rfl, rfl, rfl, [], (List.append_nil _).symm, rfl⟩

theorem Ended.step (h : Ended total x) (move : Move)
    (hstep : x.step request closes move = some y) : Ended total y := by
  cases move with
  | read =>
      rw [Listing.step] at hstep
      split at hstep
      · cases hstep
      · simp [Dir.step, turnover, h.reads] at hstep
  | turn =>
      obtain ⟨dir, hdir, rfl⟩ := Option.map_eq_some_iff.mp hstep
      obtain ⟨hrunning, hturn⟩ : x.dir.running = none ∧ x.dir.turnover .scheduled = some dir := by
        simpa [Dir.step] using hdir
      cases hscheduled : x.dir.scheduled with
      | nil => simp [turnover, hscheduled] at hturn
      | cons job rest =>
          obtain ⟨callback, rfl⟩ := h.jobs job (by simp [hscheduled])
          have hclose : { x.dir with scheduled := rest }.close (.user callback) = dir := by
            rw [turnover, hscheduled] at hturn
            exact Option.some.inj hturn
          obtain ⟨hread, hreads, hrun, hjobs, new, hcalls, hnew⟩ :=
            @close_not_reading { x.dir with scheduled := rest } h.readRequest callback
          rw [hclose] at hread hreads hrun hjobs hcalls
          refine ⟨hread, hreads.trans h.reads, ?_, ?_, ?_⟩
          · change dir.running = none ∨ dir.running = some .last
            rw [hrun]
            exact h.running
          · intro job hjob
            change job ∈ dir.scheduled at hjob
            rw [hjobs] at hjob
            refine h.jobs job ?_
            rw [hscheduled]
            exact List.mem_cons_of_mem _ hjob
          · rw [follow_log hcalls, hnew, List.append_nil, h.log]
  | callback =>
      rw [Listing.step] at hstep
      rcases h.running with hrunning | hrunning
      · simp [hrunning, Dir.step] at hstep
      · simp only [hrunning, Dir.step, resume, Option.map_some, Option.some.injEq] at hstep
        subst hstep
        exact ⟨h.readRequest, h.reads, .inl rfl, h.jobs, (follow_log_same rfl).trans h.log⟩

/-! ## Whole listings -/

inductive Phase (request : ListRequest) (closes : Nat → List (Option Nat))
    (final : Option Failure) (total : List Mark) (x : Listing) : Prop
  | waiting {entries : List Entry} (h : Waiting request closes final total entries x)
  | inCallback {entries : List Entry} (h : InCallback request closes final total entries x)
  | ended (h : Ended total x)

section Runs

variable {list endList : Nat} {withContinuation : Bool}

theorem running_of_read {y : Listing}
    (hstep : x.step request closes .read = some y) : x.dir.running = none := by
  by_contra hne
  rw [Listing.step] at hstep
  split at hstep
  · cases hstep
  · simp [Dir.step, hne] at hstep

theorem phase_step (x : Listing) (move : Move) (y : Listing)
    (h : Phase (listRequest withContinuation list endList) closes final total x)
    (hstep : x.step (listRequest withContinuation list endList) closes move = some y) :
    Phase (listRequest withContinuation list endList) closes final total y := by
  cases h with
  | ended h => exact .ended (h.step move hstep)
  | @waiting entries h =>
      cases move with
      | turn =>
          obtain ⟨hgoing, hreads, hrunning, hunread, hreturned, hlog⟩ := h.going.turn hstep
          refine .waiting ⟨hgoing, hreads.trans h.reads, ?_, hunread.trans h.unread, ?_⟩
          · rw [hrunning]
            exact h.running
          · rw [hlog, hreturned]
            exact h.log
      | read =>
          have hrunning := running_of_read hstep
          cases entries with
          | nil =>
              obtain ⟨z, hz, hended⟩ := h.read_end hrunning
              cases hz.symm.trans hstep
              exact .ended hended
          | cons entry entries =>
              obtain ⟨z, hz, hin⟩ := h.read_entry hrunning
              cases hz.symm.trans hstep
              exact .inCallback hin
      | callback =>
          rcases h.running with hrunning | hrunning
          · rw [Listing.step] at hstep
            simp [hrunning, Dir.step] at hstep
          · obtain ⟨z, hz, hwaiting, _⟩ := h.callback hrunning
            cases hz.symm.trans hstep
            exact .waiting hwaiting
  | inCallback h =>
      cases move with
      | turn =>
          obtain ⟨dir, hdir, _⟩ := Option.map_eq_some_iff.mp hstep
          simp [Dir.step, h.running] at hdir
      | read => cases h.running.symm.trans (running_of_read hstep)
      | callback =>
          obtain ⟨z, hz, hnext⟩ := h.callback
          cases hz.symm.trans hstep
          rcases hnext with ⟨hwaiting, _⟩ | hended
          · exact .waiting hwaiting
          · exact .ended hended

/-- A listing that waits can be brought to its end. The induction is on the entries to come. -/
theorem Waiting.completes {entries : List Entry}
    (h : Waiting (listRequest withContinuation list endList) closes final total entries x)
    (hrunning : x.dir.running = none) :
    ∃ run y, exec (step (listRequest withContinuation list endList) closes) x run = some y ∧
      Ended total y := by
  induction entries generalizing x with
  | nil =>
      obtain ⟨y, hy, hended⟩ := h.read_end hrunning
      exact ⟨[.read], y, by rw [exec_cons_of_step hy, exec], hended⟩
  | cons entry entries ih =>
      obtain ⟨y, hy, hin⟩ := h.read_entry hrunning
      obtain ⟨z, hz, hnext⟩ := hin.callback
      rcases hnext with ⟨hwaiting, hnone⟩ | hended
      · obtain ⟨run, w, hrun, hended⟩ := ih hwaiting hnone
        refine ⟨.read :: .callback :: run, w, ?_, hended⟩
        rw [exec_cons_of_step hy, exec_cons_of_step hz, hrun]
      · exact ⟨[.read, .callback], z, by rw [exec_cons_of_step hy, exec_cons_of_step hz, exec],
          hended⟩

end Runs

end Listing

variable {s : Dir} {list endList : Nat} {withContinuation : Bool}
  {closes : Nat → List (Option Nat)} {final : Option Failure} {entries : List Entry}

theorem ReadyToList.waiting (hs : s.ReadyToList) :
    Listing.Waiting (listRequest withContinuation list endList) closes final
      (marksFrom (!withContinuation) closes final 0 entries) entries
      (s.beginList (listRequest withContinuation list endList) final entries) := by
  have hlist : s.list (listRequest withContinuation list endList) none =
      { s with
        readRequest := some (listRequest withContinuation list endList)
        reads := [listRequest withContinuation list endList] } := by
    simp [Dir.list, hs.isOpen, hs.readRequest, hs.reads]
  unfold beginList
  rw [hlist]
  refine ⟨⟨hs.isOpen, rfl, ?_, fun _ => ⟨hs.state, hs.scheduled⟩⟩, rfl, hs.running, rfl, rfl⟩
  intro job hjob
  rw [show s.scheduled = [] from hs.scheduled] at hjob
  cases hjob

/-- `x` is a listing of `s` that has come to its end. -/
def ListedTo (s : Dir) (request : ListRequest) (closes : Nat → List (Option Nat))
    (final : Option Failure) (entries : List Entry) (x : Listing) : Prop :=
  x.dir.readRequest = none ∧
    ∃ run, exec (Listing.step request closes) (s.beginList request final entries) run = some x

/-- What is seen of a listing depends on nothing but its mode, the results and the closes. -/
theorem ListedTo.log_eq (hs : s.ReadyToList) {x : Listing}
    (h : s.ListedTo (listRequest withContinuation list endList) closes final entries x) :
    x.log = marksFrom (!withContinuation) closes final 0 entries := by
  obtain ⟨hover, run, hrun⟩ := h
  cases exec_invariant Listing.phase_step (.waiting hs.waiting) hrun with
  | waiting h => cases hover.symm.trans h.going.readRequest
  | inCallback h => cases hover.symm.trans h.going.readRequest
  | ended h => exact h.log

theorem exists_listedTo (hs : s.ReadyToList) :
    ∃ x, s.ListedTo (listRequest withContinuation list endList) closes final entries x := by
  have hbegin : (s.beginList (listRequest withContinuation list endList) final entries).Waiting
      (listRequest withContinuation list endList) closes final
      (marksFrom (!withContinuation) closes final 0 entries) entries := hs.waiting
  rcases hbegin.running with hrunning | hrunning
  · obtain ⟨run, x, hrun, hended⟩ := hbegin.completes hrunning
    exact ⟨x, hended.readRequest, run, hrun⟩
  · obtain ⟨y, hy, hwaiting, hnone⟩ := hbegin.callback hrunning
    obtain ⟨run, x, hrun, hended⟩ := hwaiting.completes hnone
    exact ⟨x, hended.readRequest, .callback :: run, by rw [exec_cons_of_step hy, hrun]⟩

/-! ## Comparing the modes -/

variable {callbacks : List (Option Nat)}

def Mark.listed : Mark → Option (String × DirectoryEntryType)
  | .entry name type => some (name, type)
  | .closeCalled | .ended _ => none

def Mark.endStatus : Mark → Option Error
  | .ended error => some error
  | .closeCalled | .entry .. => none

def NoEntryAfterClose : List Mark → Prop
  | [] => True
  | .closeCalled :: rest => rest.filterMap Mark.listed = []
  | .entry .. :: rest | .ended _ :: rest => NoEntryAfterClose rest

/-- The same entries and the same status, which is reported once, and no entry after a close. -/
structure Agree (plain continued : List Mark) : Prop where
  entries : plain.filterMap Mark.listed = continued.filterMap Mark.listed
  ends : plain.filterMap Mark.endStatus = continued.filterMap Mark.endStatus
  once : (plain.filterMap Mark.endStatus).length = 1
  plain_quiet : NoEntryAfterClose plain
  continued_quiet : NoEntryAfterClose continued

/-- `close` is called in the last list callback at most, and the directory ends regularly then. -/
def ClosesLast (closes : Nat → List (Option Nat)) (final : Option Failure)
    (entries : List Entry) : Prop :=
  ∀ n < entries.length, closes n ≠ [] → n + 1 = entries.length ∧ final = none

theorem agree_entry (name : String) (type : DirectoryEntryType) (a b : List Mark) :
    Agree (.entry name type :: a) (.entry name type :: b) ↔ Agree a b := by
  constructor
  · intro h
    exact ⟨List.tail_eq_of_cons_eq h.entries, h.ends, h.once, h.plain_quiet, h.continued_quiet⟩
  · intro h
    exact ⟨congrArg (List.cons (name, type)) h.entries, h.ends, h.once, h.plain_quiet,
      h.continued_quiet⟩

/-- Without stopping, every entry is seen, and then the status of the end. -/
theorem listed_marksFrom (n : Nat) (entries : List Entry) :
    (marksFrom false closes final n entries).filterMap Mark.listed =
      entries.map fun entry => (entry.1, convertDirentryType entry.2) := by
  induction entries generalizing n with
  | nil => rfl
  | cons entry entries ih =>
      simp [marksFrom, Mark.listed, List.filterMap_append, ih]

theorem endStatus_marksFrom (n : Nat) (entries : List Entry) :
    (marksFrom false closes final n entries).filterMap Mark.endStatus = [status final] := by
  induction entries generalizing n with
  | nil => rfl
  | cons entry entries ih =>
      simp [marksFrom, List.filterMap_cons, Mark.endStatus, List.filterMap_append, ih]

theorem status_eq_ok_iff (final : Option Failure) : status final = {} ↔ final = none := by
  cases final with
  | none => simp [status]
  | some error =>
      refine iff_of_false ?_ (by simp)
      intro h
      have herror := error.2
      rw [show error.val = {} from h] at herror
      cases herror

theorem noEntryAfterClose_closes (hne : callbacks ≠ []) (rest : List Mark) :
    NoEntryAfterClose (callbacks.map (fun _ => .closeCalled) ++ rest) ↔
      rest.filterMap Mark.listed = [] := by
  cases callbacks with
  | nil => exact absurd rfl hne
  | cons callback callbacks => simp [NoEntryAfterClose, List.filterMap_append, Mark.listed]

/-- The two modes part at the first close. -/
theorem agree_closes (hne : callbacks ≠ []) (n : Nat) (entries : List Entry) :
    Agree (callbacks.map (fun _ => .closeCalled) ++ [.ended {}])
        (callbacks.map (fun _ => .closeCalled) ++ marksFrom false closes final n entries) ↔
      entries = [] ∧ final = none := by
  have hlisted : (callbacks.map fun _ => Mark.closeCalled).filterMap Mark.listed = [] := by
    simp [Mark.listed]
  have hends : (callbacks.map fun _ => Mark.closeCalled).filterMap Mark.endStatus = [] := by
    simp [Mark.endStatus]
  constructor
  · intro h
    have hentries := h.entries
    have hstatus := h.ends
    rw [List.filterMap_append, List.filterMap_append, hlisted, listed_marksFrom] at hentries
    rw [List.filterMap_append, List.filterMap_append, hends, endStatus_marksFrom] at hstatus
    refine ⟨List.map_eq_nil_iff.mp hentries.symm, (status_eq_ok_iff final).mp ?_⟩
    exact (List.singleton_inj.mp hstatus).symm
  · rintro ⟨rfl, rfl⟩
    refine ⟨rfl, rfl, ?_, ?_, ?_⟩
    · rw [List.filterMap_append, hends]
      rfl
    · rw [noEntryAfterClose_closes hne]
      rfl
    · rw [noEntryAfterClose_closes hne]
      rfl

theorem agree_marksFrom_iff (n : Nat) (entries : List Entry) :
    Agree (marksFrom true closes final n entries) (marksFrom false closes final n entries) ↔
      ClosesLast (fun k => closes (n + k)) final entries := by
  induction entries generalizing n with
  | nil =>
      refine iff_of_true ⟨rfl, rfl, rfl, trivial, trivial⟩ ?_
      intro k hk
      cases hk
  | cons entry entries ih =>
      by_cases hnone : closes n = []
      · simp only [marksFrom, hnone, List.map_nil, List.nil_append, ne_eq, not_true_eq_false,
          and_false, if_false, agree_entry, ih]
        constructor
        · intro h k hk hclose
          cases k with
          | zero => exact absurd hnone hclose
          | succ k =>
              have hlast := h k (Nat.lt_of_succ_lt_succ hk)
                (by simpa [Nat.add_assoc, Nat.add_comm 1 k] using hclose)
              exact ⟨congrArg Nat.succ hlast.1, hlast.2⟩
        · intro h k hk hclose
          have hlast := h (k + 1) (Nat.succ_lt_succ hk)
            (by simpa [Nat.add_assoc, Nat.add_comm 1 k] using hclose)
          exact ⟨Nat.succ.inj hlast.1, hlast.2⟩
      · simp only [marksFrom, hnone, ne_eq, not_false_eq_true, and_self, if_true,
          Bool.false_eq_true, false_and, if_false, agree_entry, agree_closes hnone]
        constructor
        · rintro ⟨rfl, rfl⟩ k hk _
          exact ⟨by simp only [List.length_singleton] at hk ⊢; omega, rfl⟩
        · intro h
          have hlast := h 0 (by simp) (by simpa using hnone)
          exact ⟨List.eq_nil_of_length_eq_zero (Nat.succ.inj hlast.1.symm), hlast.2⟩

/-- A directory that is open can be listed to the end in both modes, and what is seen is the same
in both, without an entry after a close, exactly when `close` is called in no list callback but
that of the last entry, and then only if the directory ends without an error. -/
theorem listing_modes_agree_iff (s : Dir) (hs : s.ReadyToList) (list endList : Nat)
    (closes : Nat → List (Option Nat)) (final : Option Failure) (entries : List Entry) :
    (∃ x, s.ListedTo (listRequest false list endList) closes final entries x) ∧
    (∃ y, s.ListedTo (listRequest true list endList) closes final entries y) ∧
    ∀ x y, s.ListedTo (listRequest false list endList) closes final entries x →
      s.ListedTo (listRequest true list endList) closes final entries y →
        (Agree x.log y.log ↔ ClosesLast closes final entries) := by
  refine ⟨exists_listedTo hs, exists_listedTo hs, ?_⟩
  intro x y hx hy
  rw [hx.log_eq hs, hy.log_eq hs]
  have hshift : (fun k => closes (0 + k)) = closes := funext fun k => by rw [Nat.zero_add]
  have hagree : Agree (marksFrom true closes final 0 entries)
      (marksFrom false closes final 0 entries) ↔
        ClosesLast (fun k => closes (0 + k)) final entries := agree_marksFrom_iff 0 entries
  rwa [hshift] at hagree

def twoEntries : List Entry := [("a", .file), ("b", .file)]

def openDirectory : Dir := { state := .opened, isOpen := true }

theorem readyToList_openDirectory : openDirectory.ReadyToList := ⟨rfl, rfl, rfl, rfl, rfl, .inl rfl⟩

def closeInFirst : Nat → List (Option Nat)
  | 0 => [none]
  | _ + 1 => []

/-- The plain mode ends the listing there, and the other one reports the second entry as well. -/
theorem listing_modes_differ :
    (∃ x ∈ exec (Listing.step (listRequest false 1 2) closeInFirst)
        (openDirectory.beginList (listRequest false 1 2) none twoEntries) [.read, .callback],
      x.dir.readRequest = none ∧ x.log = [.entry "a" .file, .closeCalled, .ended {}]) ∧
    ∃ y ∈ exec (Listing.step (listRequest true 1 2) closeInFirst)
        (openDirectory.beginList (listRequest true 1 2) none twoEntries)
        [.read, .callback, .turn, .read, .callback, .read],
      y.dir.readRequest = none ∧
        y.log = [.entry "a" .file, .closeCalled, .entry "b" .file, .ended {}] := by
  constructor <;> decide +kernel

/-- Without a close the modes agree on this directory. -/
theorem listing_modes_agree_iff_twoEntries :
    ∃ x y, openDirectory.ListedTo (listRequest false 1 2) (fun _ => []) none twoEntries x ∧
      openDirectory.ListedTo (listRequest true 1 2) (fun _ => []) none twoEntries y ∧
      Agree x.log y.log := by
  obtain ⟨⟨x, hx⟩, ⟨y, hy⟩, hiff⟩ :=
    listing_modes_agree_iff openDirectory readyToList_openDirectory 1 2 (fun _ => []) none
      twoEntries
  exact ⟨x, y, hx, hy, (hiff x y hx hy).mpr fun _ _ h => absurd rfl h⟩

end TarmIo.Fs.Dir
