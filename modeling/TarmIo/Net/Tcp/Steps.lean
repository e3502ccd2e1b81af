import TarmIo.Net.Tcp.TcpClient

/-!
# What the steps of a `TcpClient` leave alone

Streams are made by a scheduled connect, shutdown requests by `shutdown`, and callbacks are
scheduled by `connect`. Everything else is steady.
-/

namespace TarmIo.Net.Tcp

open Foundation

def Call.chunk (i : Nat) : Call → Option (UInt64 × UInt64)
  | .receive j offset size => if j = i then some (offset, size) else none
  | .connect _ | .close _ => none

def Frame.size : Frame → UInt64
  | .received _ size => size
  | _ => 0

namespace TcpClient

variable {c c' d : TcpClient} {call : Call} {frame : Frame} {next : TcpClient → TcpClient}

/-- What holds after the callback, and where the client stops in it, holds of `invoke`. -/
theorem invoke_cases {P : TcpClient → Prop} {callback : Callback}
    (hnext : ∀ calls, P (next { c with calls := calls }))
    (hstop : ∀ calls, P { c with calls := calls, running := some frame }) :
    P (c.invoke callback call frame next) := by
  cases callback with
  | null => exact hnext c.calls
  | silent => exact hnext _
  | user => exact hstop _

/-! ## What the calls and handlers leave alone -/

/-- The part of the client that only new streams, shutdown requests and data change: `delivering`
is the size of the chunk whose callback runs, which the offset does not count yet. -/
structure Ledger where
  tcpStream : Option Nat
  receiveCallback : Callback
  scheduled : List ConnectArgs
  created : Nat
  dataOffset : UInt64
  delivering : UInt64
  shutdowns : Nat → Nat
  bytesBefore : Nat → UInt64
  chunks : Nat → List (UInt64 × UInt64)

def ledger (c : TcpClient) : Ledger where
  tcpStream := c.tcpStream
  receiveCallback := c.receiveCallback
  scheduled := c.scheduled
  created := c.created
  dataOffset := c.dataOffset
  delivering := c.running.elim 0 Frame.size
  shutdowns i := (c.streams i).shutdowns
  bytesBefore i := (c.streams i).bytesBefore
  chunks i := c.calls.filterMap (Call.chunk i)

/-- The stream or the receive callback may be given up, and shutdown requests may be over. -/
structure Ledger.Steady (l m : Ledger) : Prop where
  tcpStream : m.tcpStream = l.tcpStream ∨ m.tcpStream = none
  receiveCallback : m.receiveCallback = l.receiveCallback ∨ m.receiveCallback = .null
  scheduled : m.scheduled = l.scheduled
  created : m.created = l.created
  dataOffset : m.dataOffset = l.dataOffset
  delivering : m.delivering = l.delivering
  shutdowns : ∀ i, m.shutdowns i ≤ l.shutdowns i
  bytesBefore : m.bytesBefore = l.bytesBefore
  chunks : m.chunks = l.chunks

def Steady (c d : TcpClient) : Prop := c.ledger.Steady d.ledger

theorem Steady.refl (c : TcpClient) : c.Steady c :=
  ⟨.inl rfl, .inl rfl, rfl, rfl, rfl, rfl, fun _ => Nat.le_refl _, rfl, rfl⟩

theorem onStream_bytesBefore {i : Nat} {f : Stream → Stream}
    (hf : (f (c.streams i)).bytesBefore = (c.streams i).bytesBefore) :
    (c.onStream i f).ledger.bytesBefore = c.ledger.bytesBefore := by
  funext j
  by_cases hj : j = i
  · subst hj
    simpa [ledger, TcpClient.onStream] using hf
  · simp [ledger, TcpClient.onStream, Function.update_of_ne hj]

section

variable (h : c.Steady d)
include h

theorem Steady.onStream (i : Nat) {f : Stream → Stream}
    (hshutdowns : (f (d.streams i)).shutdowns ≤ (d.streams i).shutdowns)
    (hbytes : (f (d.streams i)).bytesBefore = (d.streams i).bytesBefore) :
    c.Steady (d.onStream i f) := by
  refine { h with
    shutdowns := fun j => Nat.le_trans ?_ (h.shutdowns j)
    bytesBefore := (onStream_bytesBefore hbytes).trans h.bytesBefore }
  by_cases hj : j = i
  · subst hj
    simpa [ledger, TcpClient.onStream] using hshutdowns
  · simp [ledger, TcpClient.onStream, Function.update_of_ne hj]

theorem Steady.uvClose (i : Nat) : c.Steady (d.uvClose i) :=
  h.onStream i (Nat.le_refl _) rfl

theorem Steady.release : c.Steady { d with tcpStream := none } :=
  { h with tcpStream := .inr rfl }

theorem Steady.log (hcall : ∀ i, Call.chunk i call = none) : c.Steady (d.log call) := by
  refine { h with chunks := Eq.trans (funext fun i => ?_) h.chunks }
  simp [ledger, TcpClient.log, hcall i]

theorem Steady.invoke (hrest : c.ledger.delivering = 0)
    (hnext : ∀ d, c.Steady d → c.Steady (next d)) (callback : Callback)
    (hcall : ∀ i, Call.chunk i call = none) (hframe : frame.size = 0) :
    c.Steady (d.invoke callback call frame next) := by
  have hlogged := h.log hcall
  cases callback with
  | null => exact hnext d h
  | silent => exact hnext _ hlogged
  | user => exact { hlogged with delivering := hframe.trans hrest.symm }

theorem Steady.closeStream (accepted : Bool) : c.Steady (d.closeStream accepted) := by
  unfold TcpClient.closeStream
  split
  · exact h
  · split
    · exact h
    · split
      · exact (h.uvClose _).release
      · exact h.release

theorem Steady.sendData (buffer : Option (List UInt8)) (size : UInt32) :
    c.Steady (d.sendData buffer size) := by
  unfold TcpClient.sendData
  repeat' split
  all_goals exact h

section

variable (hrest : c.ledger.delivering = 0)
include hrest

theorem Steady.onReadError (error : Error) (hnext : ∀ d, c.Steady d → c.Steady (next d))
    (hframe : frame.size = 0) : c.Steady (d.onReadError error frame next) :=
  h.invoke hrest hnext _ (fun _ => rfl) hframe

theorem Steady.startRead (i : Nat) (readStart : Error) : c.Steady (d.startRead i readStart) := by
  unfold TcpClient.startRead
  split
  · exact h
  · split
    · exact h.onReadError hrest _ (fun _ h => h) rfl
    · split
      · exact h.onReadError hrest _ (fun _ h => h) rfl
      · exact h.onStream i (Nat.le_refl _) rfl

theorem Steady.afterResetClose (i : Nat) (readStart : Error) :
    c.Steady (d.afterResetClose i readStart) := by
  have hdropped : c.Steady { d with closeCallback := .null } := h
  exact hdropped.startRead hrest i readStart

theorem Steady.afterReset (i : Nat) (status readStart : Error) :
    c.Steady (d.afterReset i status readStart) :=
  h.invoke hrest (fun _ h => h.afterResetClose hrest i readStart) _ (fun _ => rfl) rfl

end

theorem Steady.finishConnect (i : Nat) (status : Error) : c.Steady (d.finishConnect i status) := by
  have hended : c.Steady
      (d.onStream i fun h => { h with connecting := false, connected := !status.isError }) :=
    h.onStream i (Nat.le_refl _) rfl
  exact hended

theorem Steady.dropCallbacks (status : Error) : c.Steady (d.dropCallbacks status) := by
  refine { h with receiveCallback := ?_ }
  cases hstatus : status.isError with
  | true => exact .inr (by simp [ledger, TcpClient.dropCallbacks, hstatus])
  | false => simpa [ledger, TcpClient.dropCallbacks, hstatus] using h.receiveCallback

theorem Steady.onConnect (hrest : c.ledger.delivering = 0) (i : Nat) (status readStart : Error) :
    c.Steady (d.onConnect i status readStart) := by
  have hfinished := h.finishConnect i status
  unfold TcpClient.onConnect
  split
  · exact hfinished.invoke hrest (fun _ h => h.afterReset hrest i status readStart) _
      (fun _ => rfl) rfl
  · exact (hfinished.dropCallbacks status).invoke hrest
      (fun _ h => h.startRead hrest i readStart) _ (fun _ => rfl) rfl

theorem Steady.disown (old : Nat) : c.Steady (d.disown old) := by
  have hended : c.Steady (d.onStream old fun h => { h with owned := false }) :=
    h.onStream old (Nat.le_refl _) rfl
  exact hended.release

theorem Steady.onFailure (hrest : c.ledger.delivering = 0) (error socketError : Error) :
    c.Steady (d.onFailure error socketError) := by
  unfold TcpClient.onFailure
  split
  · repeat' split
    all_goals exact h
  · rename_i old _
    split
    · exact h
    · exact (h.disown old).onReadError hrest _ (fun _ h => h.uvClose old) rfl

theorem Steady.finishShutdown (i : Nat) : c.Steady (d.finishShutdown i) := by
  unfold TcpClient.finishShutdown
  split
  · exact h
  · split
    · exact h
    · exact (h.uvClose i).release

section

variable (hrest : c.ledger.delivering = 0)
include hrest

theorem Steady.onShutdown (i : Nat) (status : Error) : c.Steady (d.onShutdown i status) := by
  unfold TcpClient.onShutdown
  split
  · exact h.invoke hrest (fun _ h => h.finishShutdown i) _ (fun _ => rfl) rfl
  · exact h.finishShutdown i

theorem Steady.onClose (i : Nat) : c.Steady (d.onClose i) := by
  unfold TcpClient.onClose
  split
  · exact h.invoke hrest (fun _ h => h) _ (fun _ => rfl) rfl
  · exact h

theorem Steady.resume (hframe : ∀ i size, frame ≠ .received i size) :
    c.Steady (d.resume frame) := by
  cases frame with
  | connectFailed | readStartFailed | closed => exact h
  | connected i readStart => exact h.startRead hrest i readStart
  | connectReset i status readStart => exact h.afterReset hrest i status readStart
  | connectResetClosed i readStart => exact h.afterResetClose hrest i readStart
  | received i size => exact absurd rfl (hframe i size)
  | readFailed old => exact h.uvClose old
  | shutdownFailed i => exact h.finishShutdown i

end

end

/-! ## The other steps -/

theorem steady_tearDown (c : TcpClient) : c.Steady c.tearDown := by
  unfold TcpClient.tearDown
  split
  · exact Steady.refl c
  · rename_i i _
    have hended : c.Steady (c.onStream i fun h => { h with owned := false }) :=
      (Steady.refl c).onStream i (Nat.le_refl _) rfl
    exact (hended.uvClose i).release

structure Renewed (c d : TcpClient) : Prop where
  tcpStream : d.tcpStream = some c.created
  created : d.created = c.created + 1
  streams : ∀ j ≠ c.created, d.streams j = c.streams j
  shutdowns : (d.streams c.created).shutdowns = 0
  bytesBefore : (d.streams c.created).bytesBefore = c.dataOffset
  dataOffset : d.dataOffset = c.dataOffset
  scheduled : d.scheduled = c.scheduled
  running : d.running = c.running ∨ d.running = some .connectFailed
  chunks : d.ledger.chunks = c.ledger.chunks

theorem renewed_initStream (c : TcpClient) : c.Renewed c.initStream := by
  refine ⟨rfl, rfl, fun _ hj => Function.update_of_ne hj _ _, ?_, ?_, rfl, rfl, .inl rfl, rfl⟩
  · simp [TcpClient.initStream]
  · simp [TcpClient.initStream]

theorem Renewed.invoke (h : c.Renewed d) (callback : Callback) (error : Error) :
    c.Renewed (d.invoke callback (.connect error) .connectFailed id) := by
  have hlogged : (d.log (.connect error)).ledger.chunks = c.ledger.chunks :=
    ((Steady.refl d).log fun _ => rfl).chunks.trans h.chunks
  cases callback with
  | null => exact h
  | silent => exact { h with chunks := hlogged }
  | user => exact { h with running := .inr rfl, chunks := hlogged }

theorem connectImpl_renewed (c : TcpClient) (args : ConnectArgs)
    (hdefined : args.endpointDefined = true) (uv : UvConnect) :
    c.Renewed (c.connectImpl args uv) := by
  have hinit := renewed_initStream c
  have hset : c.Renewed ((c.initStream.resetConnectReq (some c.created)).setCallbacks args) :=
    { hinit with }
  unfold TcpClient.connectImpl
  split
  · simp_all
  · split
    · exact hinit.invoke _ _
    · split
      · exact hset.invoke _ _
      · refine { hset with streams := fun j hj => ?_, shutdowns := ?_, bytesBefore := ?_ }
        · exact (Function.update_of_ne hj _ _).trans (hset.streams j hj)
        · simpa [onStream] using hset.shutdowns
        · simpa [onStream] using hset.bytesBefore

theorem connectImpl_connectReq {args : ConnectArgs} (hdefined : args.endpointDefined = true)
    {uv : UvConnect} (hinit : uv.init.isError = false) :
    (c.connectImpl args uv).connectReq = some c.created := by
  rw [connectImpl, hdefined, hinit]
  cases uv.connect.isError with
  | false => rfl
  | true => exact invoke_cases (P := (·.connectReq = some c.created)) (fun _ => rfl) (fun _ => rfl)

theorem Renewed.shutdowns_le (h : c.Renewed d) (j : Nat) :
    (d.streams j).shutdowns ≤ (c.streams j).shutdowns := by
  by_cases hj : j = c.created
  · subst hj
    rw [h.shutdowns]
    exact Nat.zero_le _
  · exact Nat.le_of_eq (congrArg Stream.shutdowns (h.streams j hj))

/-- For an undefined endpoint only the connect callback is called. -/
theorem steady_connectImpl (hrest : c.ledger.delivering = 0) {args : ConnectArgs}
    (hundefined : args.endpointDefined = false) (uv : UvConnect) :
    c.Steady (c.connectImpl args uv) := by
  rw [connectImpl, hundefined]
  exact (Steady.refl c).invoke hrest (fun _ h => h) _ (fun _ => rfl) rfl

@[simp] theorem onData_streams (c : TcpClient) (i : Nat) (size : UInt64) :
    (c.onData i size).streams = c.streams := by
  unfold onData
  split
  · rfl
  · exact invoke_cases (P := fun d => d.streams = c.streams) (fun _ => rfl) (fun _ => rfl)

/-- The completions of requests that carry no data. -/
theorem steady_handle (hrest : c.running = none) {completion : Completion}
    (hmade : ∀ uv, completion ≠ .scheduled uv) (hdata : ∀ i size, completion ≠ .data i size)
    (hstep : c.handle completion = some c') : c.Steady c' := by
  have hrefl := Steady.refl c
  have hidle : c.ledger.delivering = 0 := by simp [ledger, hrest]
  cases completion with
  | scheduled uv => exact absurd rfl (hmade uv)
  | data i size => exact absurd rfl (hdata i size)
  | connected i status readStart =>
      obtain ⟨_, rfl⟩ := by simpa [TcpClient.handle] using hstep
      exact hrefl.onConnect hidle i status readStart
  | failure i error socketError =>
      obtain ⟨_, rfl⟩ := by simpa [TcpClient.handle] using hstep
      have hreset : c.Steady (c.resetConnectReq none) := hrefl
      exact Steady.onFailure (hreset.onStream i (Nat.le_refl _) rfl) hidle error socketError
  | shutdown i status =>
      obtain ⟨_, rfl⟩ := by simpa [TcpClient.handle] using hstep
      exact Steady.onShutdown (hrefl.onStream i (Nat.sub_le _ _) rfl) hidle i status
  | closed i =>
      obtain ⟨_, rfl⟩ := by simpa [TcpClient.handle] using hstep
      exact Steady.onClose (hrefl.onStream i (Nat.le_refl _) rfl) hidle i

theorem step_scheduled {uv : UvConnect} (hstep : c.step (.loop (.scheduled uv)) = some c') :
    ∃ args rest, c.scheduled = args :: rest ∧ c.running = none ∧
      c' = { c with scheduled := rest }.connectImpl args uv := by
  obtain ⟨hrest, hstep⟩ := by simpa [step] using hstep
  rw [TcpClient.handle] at hstep
  split at hstep
  · cases hstep
  · rename_i args rest hscheduled
    cases hstep
    exact ⟨args, rest, hscheduled, hrest, rfl⟩

theorem steady_leave (hrunning : c.running = some frame)
    (hframe : ∀ i size, frame ≠ .received i size) :
    c.Steady ({ c with running := none }.resume frame) := by
  have hsize : frame.size = 0 := by
    cases frame with
    | received i size => exact absurd rfl (hframe i size)
    | connectFailed | connected | connectReset | connectResetClosed => rfl
    | readStartFailed | readFailed | shutdownFailed | closed => rfl
  have hidle : c.ledger.delivering = 0 := by simp [ledger, hrunning, hsize]
  have hleft : c.Steady { c with running := none } :=
    { Steady.refl c with delivering := hidle.symm }
  exact hleft.resume hidle hframe

/-- What a step does to the ledger: nothing much, unless it connects, asks for a shutdown, runs a
scheduled connect, or delivers data. -/
theorem step_cases {e : Event} (hstep : c.step e = some c') :
    c.Steady c' ∨
      (∃ args, e = .call (.connect args) ∧ c' = c.connect args) ∨
      (∃ i, e = .call (.shutdown true) ∧ c.isOpen = true ∧ c.tcpStream = some i ∧
        c' = c.onStream i fun h => { h with shutdowns := h.shutdowns + 1 }) ∨
      (∃ uv args rest, e = .loop (.scheduled uv) ∧ c.running = none ∧
        c.scheduled = args :: rest ∧ c' = { c with scheduled := rest }.connectImpl args uv) ∨
      (∃ i size, e = .loop (.data i size) ∧ c.running = none ∧
        (c.streams i).reading = true ∧ c' = (c.resetConnectReq none).onData i size) ∨
      (∃ i size, e = .leave ∧ c.running = some (.received i size) ∧
        c' = { c with running := none }.advance size) := by
  have hrefl := Steady.refl c
  cases e with
  | call user =>
      cases hstep
      cases user with
      | connect args => exact .inr (.inl ⟨args, rfl, rfl⟩)
      | close => exact .inl (hrefl.closeStream true)
      | closeWithReset accepted => exact .inl (hrefl.closeStream accepted)
      | sendData buffer size => exact .inl (hrefl.sendData buffer size)
      | shutdown accepted =>
          rw [apply, TcpClient.shutdown]
          split
          · rename_i hopen
            split
            · exact .inl hrefl
            · rename_i i hstream
              cases accepted with
              | false => exact .inl hrefl
              | true => exact .inr (.inr (.inl ⟨i, rfl, hopen, hstream, rfl⟩))
          · exact .inl hrefl
  | leave =>
      rw [step] at hstep
      split at hstep
      · cases hstep
      · rename_i frame hrunning
        cases hstep
        by_cases hframe : ∃ i size, frame = .received i size
        · obtain ⟨i, size, rfl⟩ := hframe
          exact .inr (.inr (.inr (.inr (.inr ⟨i, size, rfl, hrunning, rfl⟩))))
        · exact .inl (steady_leave hrunning fun i size h => hframe ⟨i, size, h⟩)
  | loop completion =>
      by_cases hmade : ∃ uv, completion = .scheduled uv
      · obtain ⟨uv, rfl⟩ := hmade
        obtain ⟨args, rest, hscheduled, hrest, rfl⟩ := step_scheduled hstep
        exact .inr (.inr (.inr (.inl ⟨uv, args, rest, rfl, hrest, hscheduled, rfl⟩)))
      · obtain ⟨hrest, hstep⟩ := by simpa [step] using hstep
        by_cases hdata : ∃ i size, completion = .data i size
        · obtain ⟨i, size, rfl⟩ := hdata
          obtain ⟨hreading, rfl⟩ := by simpa [TcpClient.handle] using hstep
          exact .inr (.inr (.inr (.inr (.inl ⟨i, size, rfl, hrest, hreading, rfl⟩))))
        · exact .inl (steady_handle hrest (fun uv h => hmade ⟨uv, h⟩)
            (fun i size h => hdata ⟨i, size, h⟩) hstep)

end TcpClient

end TarmIo.Net.Tcp
