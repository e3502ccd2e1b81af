import TarmIo.Net.Tcp.ClientSet

/-!
# The end of one connection of a `TcpServer`

`TcpConnectedClient.cpp` for one client that was accepted, with everything that can end it: calls
of `close`, `shutdown` and `close_with_reset` at any time and in any callback, an error of a read,
the completion of `uv_shutdown`. The calls of `uv_close`, of the user's callback and of
`schedule_removal` are counted. `uv_shutdown`, `uv_tcp_close_reset` and `uv_read_start` succeed, and
libuv reads nothing after an error.

The clients of a server do not know of each other, so one of them is followed here, through the
same functions of `TcpConnectedClient` that the machine of the server calls.
-/

namespace TarmIo.Net.Tcp

open Foundation

namespace ServedConnection

/-- The callback that runs: that of the new connection, of data, of a failed read, or of
`on_close`. -/
inductive Frame
  | accepted
  | received (size : UInt64)
  | readFailed
  | closed
deriving DecidableEq

inductive Event
  | close
  | shutdown
  | closeWithReset
  | leave (receiveCallback : Bool)
  | data (size : UInt64)
  | failure (error socketError : Error)
  | shutdownDone
  | closed
deriving DecidableEq

end ServedConnection

/-- A client with the callback that runs for it, the calls of `uv_close` and `uv_tcp_close_reset`,
those of the user's close callback and those of `schedule_removal`. -/
structure ServedConnection where
  client : TcpConnectedClient
  running : Option ServedConnection.Frame := none
  uvCloses : Nat := 0
  reports : List Error := []
  removals : Nat := 0
deriving DecidableEq

namespace ServedConnection

/-- A function of the client. It has called `uv_close` for each close callback that is to come. -/
def update (c : ServedConnection) (f : TcpConnectedClient → TcpConnectedClient) :
    ServedConnection :=
  { c with client := f c.client, uvCloses := c.uvCloses + ((f c.client).closes - c.client.closes) }

def startRead (c : ServedConnection) (receiveCallback : Bool) : ServedConnection :=
  { c with client := { c.client with receiveCallback, reading := true } }

/-- `on_new_connection` after the callback. -/
def finishAccept (c : ServedConnection) (receiveCallback : Bool) : ServedConnection :=
  if c.client.isOpen then c.startRead receiveCallback else c

/-- `on_new_connection` when the peer name was obtained. -/
def start (newConnectionCallback receiveCallback : Bool) : ServedConnection :=
  if newConnectionCallback then
    { client := ({} : TcpConnectedClient).setEndpoint, running := some .accepted }
  else
    finishAccept { client := ({} : TcpConnectedClient).setEndpoint } receiveCallback

def advance (c : ServedConnection) (size : UInt64) : ServedConnection :=
  { c with client := { c.client with dataOffset := c.client.dataOffset + size } }

def onData (c : ServedConnection) (size : UInt64) : ServedConnection :=
  if size = 0 then c.advance size
  else if c.client.receiveCallback then { c with running := some (.received size) }
  else c.advance size

/-- `on_read` with an error, after the callback. -/
def finishReadError (c : ServedConnection) : ServedConnection :=
  c.update fun k => { k with closeCallback := false }.close

def onFailure (c : ServedConnection) (error socketError : Error) : ServedConnection :=
  if c.client.closeCallback then
    let reported := TcpClient.reportedError error socketError
    { c with
      reports := c.reports ++ [if reported.code = .endOfFile then {} else reported]
      running := some .readFailed }
  else c.finishReadError

/-- `on_close`, which ends with `schedule_removal`. -/
def onClose (c : ServedConnection) : ServedConnection :=
  if c.client.closeCallback then { c with reports := c.reports ++ [{}], running := some .closed }
  else { c with removals := c.removals + 1 }

def resume (c : ServedConnection) (receiveCallback : Bool) : Frame → ServedConnection
  | .accepted => c.finishAccept receiveCallback
  | .received size => c.advance size
  | .readFailed => c.finishReadError
  | .closed => { c with removals := c.removals + 1 }

def step (c : ServedConnection) : Event → Option ServedConnection
  | .close => some (c.update TcpConnectedClient.close)
  | .shutdown => some (c.update TcpConnectedClient.shutdown)
  | .closeWithReset => some (c.update fun k => k.closeWithReset true)
  | .leave receiveCallback =>
      match c.running with
      | none => none
      | some frame => some ({ c with running := none }.resume receiveCallback frame)
  | .data size =>
      if c.running = none ∧ c.client.reading = true then some (c.onData size) else none
  | .failure error socketError =>
      if c.running = none ∧ c.client.reading = true ∧ error.isError = true then
        some ((c.update fun k => { k with reading := false }).onFailure error socketError)
      else none
  | .shutdownDone =>
      if c.running = none ∧ 0 < c.client.shutdowns then
        some (c.update TcpConnectedClient.onShutdown)
      else none
  | .closed =>
      if c.running = none ∧ 0 < c.client.closes ∧ c.client.shutdowns = 0 then
        some (c.update fun k => { k with closes := k.closes - 1, closed := true }).onClose
      else none

/-! ## The stages of a connection -/

/-- An accepted client is in exactly one of the stages of `Staged`; what was called follows from
the stage, from the callback pointer and from the callback that runs. -/
structure Ordered (c : ServedConnection) : Prop where
  stage : c.client.isOpen.toNat + c.client.shutdowns + c.client.closes + c.client.closed.toNat = 1
  uvCloses : c.uvCloses = c.client.closes + c.client.closed.toNat
  reports : c.reports.length =
    if c.client.closeCallback = false ∨ c.running = some .readFailed ∨ c.client.closed = true
    then 1 else 0
  removals : c.removals = if c.client.closed = true ∧ c.running ≠ some .closed then 1 else 0
  reading : c.client.reading = true →
    c.client.closeCallback = true ∧ c.client.closes = 0 ∧ c.client.closed = false
  accepted : c.running = some .accepted → c.client.closeCallback = true ∧ c.client.reading = false
  readFailed : c.running = some .readFailed →
    c.client.closeCallback = true ∧ c.client.reading = false ∧ c.client.closed = false
  closed : c.running = some .closed → c.client.closed = true

/-- What the functions that end a client do to it: it moves on to another stage, and nothing is
read after a call of `uv_close`. -/
structure MovesOn (k l : TcpConnectedClient) : Prop where
  closeCallback : l.closeCallback = k.closeCallback
  closed : l.closed = k.closed
  stage : l.isOpen.toNat + l.shutdowns + l.closes = k.isOpen.toNat + k.shutdowns + k.closes
  closes : k.closes ≤ l.closes
  reading : l.reading = true → k.reading = true ∧ l.closes = k.closes

variable {k : TcpConnectedClient} {c d : ServedConnection} {e : Event}

section

variable (k : TcpConnectedClient)

theorem MovesOn.refl : MovesOn k k :=
  ⟨rfl, rfl, rfl, Nat.le_refl _, fun h => ⟨h, rfl⟩⟩

theorem movesOn_close : MovesOn k k.close := by
  unfold TcpConnectedClient.close
  split
  · rename_i hopen
    refine ⟨rfl, rfl, ?_, Nat.le_succ _, fun h => by cases h⟩
    simp only [TcpConnectedClient.uvClose, hopen, Bool.toNat_true, Bool.toNat_false]
    omega
  · exact .refl k

theorem movesOn_shutdown : MovesOn k k.shutdown := by
  unfold TcpConnectedClient.shutdown
  split
  · rename_i hopen
    refine ⟨rfl, rfl, ?_, Nat.le_refl _, fun h => ⟨h, rfl⟩⟩
    simp only [hopen, Bool.toNat_true, Bool.toNat_false]
    omega
  · exact .refl k

theorem movesOn_closeWithReset : MovesOn k (k.closeWithReset true) :=
  movesOn_close k

end

theorem movesOn_onShutdown (hpending : 0 < k.shutdowns) : MovesOn k k.onShutdown := by
  refine ⟨rfl, rfl, ?_, Nat.le_succ _, fun h => by cases h⟩
  simp only [TcpConnectedClient.onShutdown, TcpConnectedClient.uvClose]
  omega

section

variable (h : c.Ordered)
include h

theorem Ordered.update {f : TcpConnectedClient → TcpConnectedClient}
    (hf : MovesOn c.client (f c.client)) : (c.update f).Ordered where
  stage := by
    have hstage := hf.stage
    have hbefore := h.stage
    simp only [ServedConnection.update, hf.closed]
    omega
  uvCloses := by
    have hle := hf.closes
    have hbefore := h.uvCloses
    simp only [ServedConnection.update, hf.closed]
    omega
  reports := by
    simp only [ServedConnection.update, hf.closeCallback, hf.closed]
    exact h.reports
  removals := by
    simp only [ServedConnection.update, hf.closed]
    exact h.removals
  reading hreading := by
    obtain ⟨hbefore, hcloses⟩ := hf.reading hreading
    obtain ⟨hcallback, hzero, hclosed⟩ := h.reading hbefore
    exact ⟨hf.closeCallback.trans hcallback, hcloses.trans hzero, hf.closed.trans hclosed⟩
  accepted hrunning := by
    obtain ⟨hcallback, hreading⟩ := h.accepted hrunning
    refine ⟨hf.closeCallback.trans hcallback, Bool.eq_false_iff.mpr fun hafter => ?_⟩
    exact Bool.false_ne_true (hreading.symm.trans (hf.reading hafter).1)
  readFailed hrunning := by
    obtain ⟨hcallback, hreading, hclosed⟩ := h.readFailed hrunning
    refine ⟨hf.closeCallback.trans hcallback, Bool.eq_false_iff.mpr fun hafter => ?_,
      hf.closed.trans hclosed⟩
    exact Bool.false_ne_true (hreading.symm.trans (hf.reading hafter).1)
  closed hrunning := hf.closed.trans (h.closed hrunning)

/-- A callback with nothing to do for the end of the connection begins or is over. -/
theorem Ordered.withRunning {running : Option Frame}
    (hbefore : c.running ≠ some .readFailed ∧ c.running ≠ some .closed)
    (hafter : running ≠ some .accepted ∧ running ≠ some .readFailed ∧ running ≠ some .closed) :
    { c with running := running }.Ordered :=
  { h with
    reports := by simpa [hbefore.1, hafter.2.1] using h.reports
    removals := by simpa [hbefore.2, hafter.2.2] using h.removals
    accepted := fun hrunning => absurd hrunning hafter.1
    readFailed := fun hrunning => absurd hrunning hafter.2.1
    closed := fun hrunning => absurd hrunning hafter.2.2 }

theorem Ordered.advance (size : UInt64) : (c.advance size).Ordered :=
  { h with }

theorem Ordered.finishAccept (hrunning : c.running = none)
    (hcallback : c.client.closeCallback = true) (receiveCallback : Bool) :
    (c.finishAccept receiveCallback).Ordered := by
  unfold ServedConnection.finishAccept
  split
  · rename_i hopen
    have hstage := h.stage
    rw [hopen, Bool.toNat_true] at hstage
    have hcloses : c.client.closes = 0 := by omega
    have hclosed : c.client.closed = false := by
      cases hclosed : c.client.closed with
      | false => rfl
      | true => simp [hclosed] at hstage
    exact
      { h with
        reading := fun _ => ⟨hcallback, hcloses, hclosed⟩
        accepted := fun hsome => by cases hrunning.symm.trans hsome
        readFailed := fun hsome => by cases hrunning.symm.trans hsome }
  · exact h

/-- The callback pointer is cleared when the callback was called for the error. -/
theorem Ordered.finishReadError (hrunning : c.running = some .readFailed) :
    ({ c with running := none }.finishReadError).Ordered := by
  obtain ⟨hcallback, hreading, hclosed⟩ := h.readFailed hrunning
  have hreports := h.reports
  have hremovals := h.removals
  have hcleared : { c with
      client := { c.client with closeCallback := false }, running := none }.Ordered :=
    { h with
      reports := by simpa [hrunning] using hreports
      removals := by simpa [hclosed] using hremovals
      reading := fun htrue => absurd (hreading.symm.trans htrue) Bool.false_ne_true
      accepted := fun hsome => by cases hsome
      readFailed := fun hsome => by cases hsome
      closed := fun hsome => by cases hsome }
  exact hcleared.update (movesOn_close _)

theorem Ordered.onFailure (hrunning : c.running = none) (hcallback : c.client.closeCallback = true)
    (hreading : c.client.reading = false) (hclosed : c.client.closed = false)
    (error socketError : Error) : (c.onFailure error socketError).Ordered := by
  have hreports := h.reports
  have hremovals := h.removals
  unfold ServedConnection.onFailure
  rw [if_pos hcallback]
  exact
    { h with
      reports := by simpa [hcallback, hclosed, hrunning] using hreports
      removals := by simpa [hclosed] using hremovals
      accepted := fun hsome => by cases hsome
      readFailed := fun _ => ⟨hcallback, hreading, hclosed⟩
      closed := fun hsome => by cases hsome }

/-- The close callback of the stream: the user hears of the end now, or has heard of it. -/
theorem Ordered.onClose (hrunning : c.running = none) (hpending : 0 < c.client.closes) :
    ((c.update fun k => { k with closes := k.closes - 1, closed := true }).onClose).Ordered := by
  have hstage := h.stage
  have huvCloses := h.uvCloses
  have hreports := h.reports
  have hremovals := h.removals
  have hclosed : c.client.closed = false := by
    cases hclosed : c.client.closed with
    | false => rfl
    | true => simp [hclosed] at hstage; omega
  have hreading : c.client.reading = false := Bool.eq_false_iff.mpr fun htrue => by
    have hzero := (h.reading htrue).2.1
    omega
  simp only [hclosed, Bool.toNat_false] at hstage huvCloses
  simp only [hclosed, hrunning] at hreports hremovals
  unfold ServedConnection.onClose ServedConnection.update
  split
  · rename_i hcallback
    refine
      { stage := by simp only [Bool.toNat_true]; omega
        uvCloses := by simp only [Bool.toNat_true]; omega
        reports := ?_
        removals := by simpa using hremovals
        reading := fun htrue => absurd (hreading.symm.trans htrue) Bool.false_ne_true
        accepted := fun hsome => by cases hsome
        readFailed := fun hsome => by cases hsome
        closed := fun _ => rfl }
    have hnone : c.reports.length = 0 := by
      have hcallback : c.client.closeCallback = true := hcallback
      simpa [hcallback] using hreports
    simp [hnone]
  · rename_i hcallback
    refine
      { stage := by simp only [Bool.toNat_true]; omega
        uvCloses := by simp only [Bool.toNat_true]; omega
        reports := ?_
        removals := ?_
        reading := fun htrue => absurd (hreading.symm.trans htrue) Bool.false_ne_true
        accepted := fun hsome => by cases hrunning.symm.trans hsome
        readFailed := fun hsome => by cases hrunning.symm.trans hsome
        closed := fun hsome => by cases hrunning.symm.trans hsome }
    · have hcallback : c.client.closeCallback = false := Bool.eq_false_iff.mpr hcallback
      simpa [hcallback] using hreports
    · simpa [hrunning] using hremovals

theorem Ordered.onData (hrunning : c.running = none) (size : UInt64) : (c.onData size).Ordered := by
  unfold ServedConnection.onData
  repeat' split
  · exact h.advance size
  · exact h.withRunning (by simp [hrunning]) (by simp)
  · exact h.advance size

theorem Ordered.leave {frame : Frame} (hrunning : c.running = some frame) (receiveCallback : Bool) :
    ({ c with running := none }.resume receiveCallback frame).Ordered := by
  cases frame with
  | accepted =>
      have hleft : { c with running := none }.Ordered :=
        h.withRunning (by simp [hrunning]) (by simp)
      exact hleft.finishAccept rfl (h.accepted hrunning).1 receiveCallback
  | received size =>
      have hleft : { c with running := none }.Ordered :=
        h.withRunning (by simp [hrunning]) (by simp)
      exact hleft.advance size
  | readFailed => exact h.finishReadError hrunning
  | closed =>
      have hclosed := h.closed hrunning
      have hreports := h.reports
      have hremovals := h.removals
      exact
        { h with
          reports := by simpa [resume, hclosed] using hreports
          removals := by simpa [resume, hclosed, hrunning] using hremovals
          accepted := fun hsome => by cases hsome
          readFailed := fun hsome => by cases hsome
          closed := fun hsome => by cases hsome }

theorem step_ordered (hstep : c.step e = some d) : d.Ordered := by
  cases e with
  | close =>
      cases hstep
      exact h.update (movesOn_close _)
  | shutdown =>
      cases hstep
      exact h.update (movesOn_shutdown _)
  | closeWithReset =>
      cases hstep
      exact h.update (movesOn_closeWithReset _)
  | leave receiveCallback =>
      rw [step] at hstep
      split at hstep
      · cases hstep
      · rename_i frame hrunning
        cases hstep
        exact h.leave hrunning receiveCallback
  | data size =>
      obtain ⟨⟨hrunning, -⟩, rfl⟩ := by simpa [step] using hstep
      exact h.onData hrunning size
  | failure error socketError =>
      obtain ⟨⟨hrunning, hreading, -⟩, rfl⟩ := by simpa [step] using hstep
      obtain ⟨hcallback, -, hclosed⟩ := h.reading hreading
      have hstopped : (c.update fun k => { k with reading := false }).Ordered :=
        h.update ⟨rfl, rfl, rfl, Nat.le_refl _, fun hfalse => by cases hfalse⟩
      exact hstopped.onFailure hrunning hcallback rfl hclosed error socketError
  | shutdownDone =>
      obtain ⟨⟨-, hpending⟩, rfl⟩ := by simpa [step] using hstep
      exact h.update (movesOn_onShutdown hpending)
  | closed =>
      obtain ⟨⟨hrunning, hpending, -⟩, rfl⟩ := by simpa [step] using hstep
      exact h.onClose hrunning hpending

end

theorem start_ordered (newConnectionCallback receiveCallback : Bool) :
    (start newConnectionCallback receiveCallback).Ordered := by
  cases newConnectionCallback with
  | false =>
      have haccepted : Ordered { client := ({} : TcpConnectedClient).setEndpoint } :=
        ⟨rfl, rfl, rfl, rfl, by simp [TcpConnectedClient.setEndpoint], by simp, by simp, by simp⟩
      exact haccepted.finishAccept rfl rfl receiveCallback
  | true =>
      exact ⟨rfl, rfl, rfl, rfl, by simp [start, TcpConnectedClient.setEndpoint],
        fun _ => ⟨rfl, rfl⟩, by simp [start], by simp [start]⟩

/-- In whatever order the connection is ended: `uv_close` is called at most once, and when the close
callback of the stream is over the user was told once and the client handed over for removal
once. -/
theorem connection_ends_once {newConnectionCallback receiveCallback : Bool} {run : List Event}
    (h : exec step (start newConnectionCallback receiveCallback) run = some c) :
    c.uvCloses ≤ 1 ∧
      (c.client.closed = true → c.running ≠ some .closed →
        c.reports.length = 1 ∧ c.removals = 1) := by
  have hordered : c.Ordered :=
    exec_invariant (fun _ _ _ hc hstep => step_ordered hc hstep) (start_ordered _ _) h
  refine ⟨?_, fun hclosed hover => ⟨?_, ?_⟩⟩
  · have hstage := hordered.stage
    have huvCloses := hordered.uvCloses
    omega
  · simpa [hclosed] using hordered.reports
  · simpa [hclosed, hover] using hordered.removals

/-- The user shuts the connection down in the data callback, and the peer ends it before the
request completes. In the close callback the user closes and resets it as well. -/
def endedFromBothSides : List Event :=
  [.leave true, .data 5, .shutdown, .leave true, .failure (.ofCode .endOfFile) {}, .close,
    .closeWithReset, .leave true, .shutdownDone, .close, .closed]

theorem connection_ends_once_bothSides :
    ∃ c, exec step (start true true) endedFromBothSides = some c ∧
      (c.client.closed = true ∧ c.running ≠ some .closed) ∧
      c.uvCloses ≤ 1 ∧ c.reports.length = 1 ∧ c.removals = 1 := by
  have hend : ∃ c ∈ exec step (start true true) endedFromBothSides,
      c.client.closed = true ∧ c.running ≠ some .closed := by
    decide +kernel
  obtain ⟨c, hrun, hover⟩ := hend
  obtain ⟨hcloses, hends⟩ := connection_ends_once hrun
  exact ⟨c, hrun, hover, hcloses, hends hover.1 hover.2⟩

end ServedConnection

end TarmIo.Net.Tcp
