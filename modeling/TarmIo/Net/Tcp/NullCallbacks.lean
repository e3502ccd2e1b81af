import Mathlib.Data.List.Forall2
import TarmIo.Net.Tcp.TcpClient

/-!
# A `TcpClient` without callbacks

Two runs side by side: one passes null where the other passes a callback that does nothing.
Every handler but one tests its callback only around the call. `on_read` tests the close
callback around the whole end of the connection, so that a client without one stays open
when its peer is gone.
-/

namespace TarmIo.Net.Tcp

open Foundation

/-- Null stands where `b` is a callback that does nothing, or both are the same. -/
def Omitted (a b : Callback) : Prop := a = b ∨ a = .null ∧ b = .silent

theorem Omitted.ite {a b : Callback} (h : Omitted a b) (p : Prop) [Decidable p] :
    Omitted (if p then .null else a) (if p then .null else b) := by
  split
  · exact .inl rfl
  · exact h

structure ConnectArgs.Omitted (a b : ConnectArgs) : Prop where
  endpointDefined : a.endpointDefined = b.endpointDefined
  connectCallback : Tcp.Omitted a.connectCallback b.connectCallback
  receiveCallback : Tcp.Omitted a.receiveCallback b.receiveCallback
  closeCallback : Tcp.Omitted a.closeCallback b.closeCallback

structure Subset where
  connect : Bool := false
  receive : Bool := false
  close : Bool := false

def Callback.without (callback : Callback) (chosen : Bool) : Callback :=
  if chosen = true ∧ callback = .silent then .null else callback

def ConnectArgs.without (args : ConnectArgs) (subset : Subset) : ConnectArgs :=
  { args with
    connectCallback := args.connectCallback.without subset.connect
    receiveCallback := args.receiveCallback.without subset.receive
    closeCallback := args.closeCallback.without subset.close }

def TcpClient.UserCall.without (user : TcpClient.UserCall) (subset : Subset) : TcpClient.UserCall :=
  match user with
  | .connect args => .connect (args.without subset)
  | user => user

def TcpClient.Event.without (e : TcpClient.Event) (subset : Subset) : TcpClient.Event :=
  match e with
  | .call user => .call (user.without subset)
  | e => e

theorem Callback.omitted_without (callback : Callback) (chosen : Bool) :
    Omitted (callback.without chosen) callback := by
  unfold Callback.without
  split
  · rename_i h
    exact .inr ⟨rfl, h.2⟩
  · exact .inl rfl

theorem ConnectArgs.omitted_without (args : ConnectArgs) (subset : Subset) :
    (args.without subset).Omitted args :=
  ⟨rfl, Callback.omitted_without _ _, Callback.omitted_without _ _, Callback.omitted_without _ _⟩

/-- What two such clients may differ in: the callbacks, the scheduled connects with theirs, and the
calls that were made. -/
structure Passed where
  connectCallback : Callback
  receiveCallback : Callback
  closeCallback : Callback
  scheduled : List ConnectArgs
  calls : List Call

namespace TcpClient

variable {c d : TcpClient} {k : Passed}

def recast (c : TcpClient) (k : Passed) : TcpClient :=
  { c with
    connectCallback := k.connectCallback
    receiveCallback := k.receiveCallback
    closeCallback := k.closeCallback
    scheduled := k.scheduled
    calls := k.calls }

def passed (c : TcpClient) : Passed :=
  ⟨c.connectCallback, c.receiveCallback, c.closeCallback, c.scheduled, c.calls⟩

structure Omits (c : TcpClient) (k : Passed) : Prop where
  connectCallback : Omitted c.connectCallback k.connectCallback
  receiveCallback : Omitted c.receiveCallback k.receiveCallback
  closeCallback : Omitted c.closeCallback k.closeCallback
  scheduled : List.Forall₂ ConnectArgs.Omitted c.scheduled k.scheduled

/-- `d` has gone the same way as `c` with the callbacks that `c` omits. -/
def Follows (c d : TcpClient) : Prop := ∃ k, d = c.recast k ∧ c.Omits k

section

variable (h : c.Follows d)
include h

theorem Follows.isOpen : d.isOpen = c.isOpen := by
  obtain ⟨k, rfl, _⟩ := h
  rfl

theorem Follows.tcpStream : d.tcpStream = c.tcpStream := by
  obtain ⟨k, rfl, _⟩ := h
  rfl

theorem Follows.connectReq : d.connectReq = c.connectReq := by
  obtain ⟨k, rfl, _⟩ := h
  rfl

theorem Follows.streams : d.streams = c.streams := by
  obtain ⟨k, rfl, _⟩ := h
  rfl

theorem Follows.running : d.running = c.running := by
  obtain ⟨k, rfl, _⟩ := h
  rfl

theorem Follows.closeCallback : Omitted c.closeCallback d.closeCallback := by
  obtain ⟨k, rfl, hk⟩ := h
  exact hk.closeCallback

end

/-! ## What the callbacks do not touch -/

variable {f : TcpClient → TcpClient}

/-- `f` neither reads nor sets the callbacks. -/
def Indifferent (f : TcpClient → TcpClient) : Prop := ∀ c k, f (c.recast k) = (f c).recast k

theorem Omits.map (hf : Indifferent f) (h : c.Omits k) : (f c).Omits k := by
  -- `f` does not set the callbacks, since `c` is `c` with its own ones.
  have hsame : f c = (f c).recast c.passed := hf c c.passed
  rw [hsame]
  exact ⟨h.connectCallback, h.receiveCallback, h.closeCallback, h.scheduled⟩

theorem Follows.map (hf : Indifferent f) (h : c.Follows d) : (f c).Follows (f d) := by
  obtain ⟨k, rfl, hk⟩ := h
  exact ⟨k, hf c k, hk.map hf⟩

theorem indifferent_onStream (i : Nat) (f : Stream → Stream) : Indifferent (onStream · i f) :=
  fun _ _ => rfl

theorem indifferent_resetConnectReq (request : Option Nat) :
    Indifferent (resetConnectReq · request) := fun _ _ => rfl

theorem indifferent_closeStream (accepted : Bool) : Indifferent (closeStream · accepted) := by
  intro c k
  cases hstream : c.tcpStream with
  | none => simp [closeStream, recast, hstream]
  | some i =>
      cases hclosing : (c.streams i).closing <;> cases accepted <;>
        simp [closeStream, recast, hstream, hclosing, uvClose, onStream]

theorem indifferent_tearDown : Indifferent tearDown := by
  intro c k
  cases hstream : c.tcpStream with
  | none => simp [tearDown, recast, hstream]
  | some i => simp [tearDown, recast, hstream, uvClose, onStream]

theorem indifferent_shutdown (accepted : Bool) : Indifferent (shutdown · accepted) := by
  intro c k
  cases hopen : c.isOpen with
  | false => simp [shutdown, recast, hopen]
  | true =>
      cases hstream : c.tcpStream with
      | none => simp [shutdown, recast, hopen, hstream, nullOperation]
      | some i => cases accepted <;> simp [shutdown, recast, hopen, hstream, onStream]

theorem indifferent_sendData (buffer : Option (List UInt8)) (size : UInt32) :
    Indifferent (sendData · buffer size) := by
  intro c k
  cases hopen : c.isOpen with
  | false => simp [sendData, recast, hopen]
  | true =>
      by_cases hbad : size = 0 ∨ buffer = none
      · simp [sendData, recast, hopen, hbad]
      · cases hstream : c.tcpStream with
        | none => simp [sendData, recast, hopen, hbad, hstream, nullOperation]
        | some i =>
            cases hclosing : (c.streams i).closing <;>
              simp [sendData, recast, hopen, hbad, hstream, hclosing]

theorem indifferent_finishShutdown (i : Nat) : Indifferent (finishShutdown · i) := by
  intro c k
  cases hstream : c.tcpStream with
  | none => simp [finishShutdown, recast, hstream, nullOperation]
  | some j =>
      cases hclosing : (c.streams j).closing <;>
        simp [finishShutdown, recast, hstream, hclosing, uvClose, onStream]

/-! ## The handlers -/

variable {args args' : ConnectArgs}

section

variable (h : c.Follows d)
include h

variable {next : TcpClient → TcpClient}

theorem Follows.invoke {a b : Callback} (hab : Omitted a b) (call call' : Call) (frame : Frame)
    (hnext : ∀ c d : TcpClient, c.Follows d → (next c).Follows (next d)) :
    (c.invoke a call frame next).Follows (d.invoke b call' frame next) := by
  obtain ⟨k, rfl, hk⟩ := h
  have hcalled : ∀ calls calls' running, Follows { c with calls := calls, running := running }
      { c.recast k with calls := calls', running := running } := fun calls calls' running =>
    ⟨{ k with calls := calls' }, rfl, ⟨hk.1, hk.2, hk.3, hk.4⟩⟩
  rcases hab with rfl | ⟨rfl, rfl⟩
  · cases a with
    | null => exact hnext _ _ (hcalled c.calls k.calls c.running)
    | silent => exact hnext _ _ (hcalled _ _ c.running)
    | user => exact hcalled _ _ _
  · exact hnext _ _ (hcalled c.calls _ c.running)

theorem Follows.onReadError (error : Error) (frame : Frame)
    (hnext : ∀ c d : TcpClient, c.Follows d → (next c).Follows (next d)) :
    (c.onReadError error frame next).Follows (d.onReadError error frame next) :=
  h.invoke h.closeCallback _ _ frame hnext

theorem Follows.startRead (i : Nat) (readStart : Error) :
    (c.startRead i readStart).Follows (d.startRead i readStart) := by
  unfold TcpClient.startRead
  rw [h.isOpen, h.streams]
  split
  · exact h
  · split
    · exact h.onReadError _ _ fun _ _ h => h
    · split
      · exact h.onReadError _ _ fun _ _ h => h
      · exact h.map (indifferent_onStream i _)

theorem Follows.afterResetClose (i : Nat) (readStart : Error) :
    (c.afterResetClose i readStart).Follows (d.afterResetClose i readStart) := by
  obtain ⟨k, rfl, hk⟩ := h
  have hdropped : Follows { c with closeCallback := .null }
      { c.recast k with closeCallback := .null } :=
    ⟨{ k with closeCallback := .null }, rfl, ⟨hk.1, hk.2, .inl rfl, hk.4⟩⟩
  exact hdropped.startRead i readStart

theorem Follows.afterReset (i : Nat) (status readStart : Error) :
    (c.afterReset i status readStart).Follows (d.afterReset i status readStart) :=
  h.invoke h.closeCallback _ _ _ fun _ _ h => h.afterResetClose i readStart

theorem Follows.dropCallbacks (status : Error) :
    (c.dropCallbacks status).Follows (d.dropCallbacks status) := by
  obtain ⟨k, rfl, hk⟩ := h
  refine ⟨{ k with
    receiveCallback := if status.isError then .null else k.receiveCallback
    closeCallback := if status.isError then .null else k.closeCallback }, rfl, ?_⟩
  exact ⟨hk.connectCallback, hk.receiveCallback.ite _, hk.closeCallback.ite _, hk.scheduled⟩

theorem Follows.finishConnect (i : Nat) (status : Error) :
    (c.finishConnect i status).Follows (d.finishConnect i status) :=
  h.map (f := (TcpClient.finishConnect · i status)) fun _ _ => rfl

theorem Follows.onConnect (i : Nat) (status readStart : Error) :
    (c.onConnect i status readStart).Follows (d.onConnect i status readStart) := by
  have hfinished := h.finishConnect i status
  have hcallback : Omitted c.connectCallback d.connectCallback := by
    obtain ⟨k, rfl, hk⟩ := h
    exact hk.connectCallback
  unfold TcpClient.onConnect
  split
  · exact hfinished.invoke hcallback _ _ _ fun _ _ h => h.afterReset i status readStart
  · exact (hfinished.dropCallbacks status).invoke hcallback _ _ _ fun _ _ h =>
      h.startRead i readStart

theorem Follows.advance (size : UInt64) : (c.advance size).Follows (d.advance size) :=
  h.map (f := (TcpClient.advance · size)) fun _ _ => rfl

theorem Follows.onData (i : Nat) (size : UInt64) : (c.onData i size).Follows (d.onData i size) := by
  have hcallback : Omitted c.receiveCallback d.receiveCallback := by
    obtain ⟨k, rfl, hk⟩ := h
    exact hk.receiveCallback
  unfold TcpClient.onData
  split
  · exact h.advance size
  · exact h.invoke hcallback _ _ _ fun _ _ h => h.advance size

theorem Follows.nullOperation : c.nullOperation.Follows d.nullOperation :=
  h.map (f := TcpClient.nullOperation) fun _ _ => rfl

theorem Follows.uvClose (i : Nat) : (c.uvClose i).Follows (d.uvClose i) :=
  h.map (f := (TcpClient.uvClose · i)) fun _ _ => rfl

/-- The end of a connection is the same only when a missing close callback was missing before. -/
theorem Follows.onFailure (hnull : c.closeCallback = .null → d.closeCallback = .null)
    (error socketError : Error) :
    (c.onFailure error socketError).Follows (d.onFailure error socketError) := by
  have hiff : d.closeCallback = .null ↔ c.closeCallback = .null := by
    refine ⟨fun hd => ?_, hnull⟩
    rcases h.closeCallback with hsame | ⟨hc, _⟩
    · exact hsame.trans hd
    · exact hc
  have hshut : Follows { c with isOpen := false }.nullOperation
      { d with isOpen := false }.nullOperation :=
    h.map (f := fun c => { c with isOpen := false }.nullOperation) fun _ _ => rfl
  unfold TcpClient.onFailure
  rw [h.tcpStream] at hshut ⊢
  simp only [hiff]
  split
  · split
    · exact h.nullOperation
    · split
      · exact h
      · exact hshut
  · rename_i old _
    split
    · exact h
    · refine Follows.onReadError ?_ _ _ fun _ _ h => h.uvClose old
      exact h.map (f := (disown · old)) fun _ _ => rfl

theorem Follows.onShutdown (i : Nat) (status : Error) :
    (c.onShutdown i status).Follows (d.onShutdown i status) := by
  unfold TcpClient.onShutdown
  split
  · exact h.invoke h.closeCallback _ _ _ fun _ _ h => h.map (indifferent_finishShutdown i)
  · exact h.map (indifferent_finishShutdown i)

theorem Follows.onClose (i : Nat) : (c.onClose i).Follows (d.onClose i) := by
  unfold TcpClient.onClose
  rw [h.streams]
  split
  · exact h.invoke h.closeCallback _ _ _ fun _ _ h => h
  · exact h

theorem Follows.setCallbacks (hargs : args.Omitted args') :
    (c.setCallbacks args).Follows (d.setCallbacks args') := by
  obtain ⟨k, rfl, hk⟩ := h
  exact ⟨⟨args'.connectCallback, args'.receiveCallback, args'.closeCallback, k.scheduled, k.calls⟩,
    rfl, ⟨hargs.connectCallback, hargs.receiveCallback, hargs.closeCallback, hk.scheduled⟩⟩

theorem Follows.connectImpl (hargs : args.Omitted args') (uv : UvConnect) :
    (c.connectImpl args uv).Follows (d.connectImpl args' uv) := by
  have hinit : c.initStream.Follows d.initStream :=
    h.map (f := TcpClient.initStream) fun _ _ => rfl
  have hset := (hinit.map (indifferent_resetConnectReq (some c.created))).setCallbacks hargs
  have hcreated : d.created = c.created := by
    obtain ⟨k, rfl, _⟩ := h
    rfl
  unfold TcpClient.connectImpl
  rw [hargs.endpointDefined, hcreated]
  split
  · exact h.invoke hargs.connectCallback _ _ _ fun _ _ h => h
  · split
    · exact hinit.invoke hargs.connectCallback _ _ _ fun _ _ h => h
    · split
      · exact hset.invoke hargs.connectCallback _ _ _ fun _ _ h => h
      · exact hset.map (indifferent_onStream _ _)

theorem Follows.resume (frame : Frame) : (c.resume frame).Follows (d.resume frame) := by
  cases frame with
  | connectFailed | readStartFailed | closed => exact h
  | connected i readStart => exact h.startRead i readStart
  | connectReset i status readStart => exact h.afterReset i status readStart
  | connectResetClosed i readStart => exact h.afterResetClose i readStart
  | received i size => exact h.advance size
  | readFailed old => exact h.uvClose old
  | shutdownFailed i => exact h.map (indifferent_finishShutdown i)

theorem Follows.connect (hargs : args.Omitted args') :
    (c.connect args).Follows (d.connect args') := by
  obtain ⟨k, rfl, hk⟩ := h
  have hgone := hk.map indifferent_tearDown
  refine ⟨{ k with scheduled := k.scheduled ++ [args'] }, ?_, ?_⟩
  · unfold TcpClient.connect
    rw [indifferent_tearDown c k]
    rfl
  · refine ⟨hgone.connectCallback, hgone.receiveCallback, hgone.closeCallback, ?_⟩
    exact List.rel_append hk.scheduled (.cons hargs .nil)

end

/-! ## Runs side by side -/

theorem Follows.apply (h : c.Follows d) (user : UserCall) (subset : Subset) :
    (c.apply (user.without subset)).Follows (d.apply user) := by
  cases user with
  | connect args => exact h.connect (args.omitted_without subset)
  | close => exact h.map (indifferent_closeStream true)
  | closeWithReset accepted => exact h.map (indifferent_closeStream accepted)
  | shutdown accepted => exact h.map (indifferent_shutdown accepted)
  | sendData buffer size => exact h.map (indifferent_sendData buffer size)

/-- No connection ends whose client was connected without a close callback that the other has. -/
def Spared (p : TcpClient × TcpClient) (e : Event × Subset) : Prop :=
  match e.1 with
  | .loop (.failure _ _ _) => p.1.closeCallback = .null → p.2.closeCallback = .null
  | _ => True

instance (p : TcpClient × TcpClient) (e : Event × Subset) : Decidable (Spared p e) := by
  unfold Spared
  split <;> infer_instance

theorem Follows.handle (h : c.Follows d) {completion : Completion} {subset : Subset}
    (hspared : Spared (c, d) (.loop completion, subset)) :
    Option.Rel Follows (c.handle completion) (d.handle completion) := by
  cases completion with
  | scheduled uv =>
      obtain ⟨k, rfl, hk⟩ := h
      unfold TcpClient.handle
      cases hscheduled : c.scheduled with
      | nil =>
          have hnone : (c.recast k).scheduled = [] := by
            have := hk.scheduled
            rw [hscheduled] at this
            exact List.forall₂_nil_left_iff.mp this
          rw [hnone]
          exact .none
      | cons args rest =>
          have hforall := hk.scheduled
          rw [hscheduled] at hforall
          obtain ⟨args', rest', hargs, hrest, hcons⟩ := List.forall₂_cons_left_iff.mp hforall
          have hsome : (c.recast k).scheduled = args' :: rest' := hcons
          rw [hsome]
          refine .some (Follows.connectImpl ?_ hargs uv)
          exact ⟨{ k with scheduled := rest' }, rfl, ⟨hk.1, hk.2, hk.3, hrest⟩⟩
  | connected i status readStart =>
      simp only [TcpClient.handle, h.connectReq, h.streams]
      split
      · exact .some (h.onConnect i status readStart)
      · exact .none
  | data i size =>
      simp only [TcpClient.handle, h.streams]
      split
      · exact .some (Follows.onData (h.map (indifferent_resetConnectReq none)) i size)
      · exact .none
  | failure i error socketError =>
      simp only [TcpClient.handle, h.streams]
      split
      · have hreset := h.map (indifferent_resetConnectReq none)
        exact .some
          (Follows.onFailure (hreset.map (indifferent_onStream i _)) hspared error socketError)
      · exact .none
  | shutdown i status =>
      simp only [TcpClient.handle, h.streams]
      split
      · exact .some (Follows.onShutdown (h.map (indifferent_onStream i _)) i status)
      · exact .none
  | closed i =>
      simp only [TcpClient.handle, h.streams]
      split
      · exact .some (Follows.onClose (h.map (indifferent_onStream i _)) i)
      · exact .none

/-- The steps of the client with null in the place of the chosen callbacks. -/
def stepWithout (c : TcpClient) (e : Event × Subset) : Option TcpClient :=
  c.step (e.1.without e.2)

def stepWith (c : TcpClient) (e : Event × Subset) : Option TcpClient := c.step e.1

theorem Follows.step (h : c.Follows d) {e : Event × Subset} (hspared : Spared (c, d) e) :
    Option.Rel Follows (c.stepWithout e) (d.stepWith e) := by
  obtain ⟨e, subset⟩ := e
  cases e with
  | call user => exact .some (h.apply user subset)
  | leave =>
      show Option.Rel Follows (c.step .leave) (d.step .leave)
      rw [TcpClient.step, TcpClient.step, h.running]
      split
      · exact .none
      · rename_i frame _
        refine .some (Follows.resume ?_ frame)
        exact h.map (f := fun c => { c with running := none }) fun _ _ => rfl
  | loop completion =>
      show Option.Rel Follows (c.step (.loop completion)) (d.step (.loop completion))
      rw [TcpClient.step, TcpClient.step, h.running]
      split
      · exact h.handle hspared
      · exact .none

def openStreams (c : TcpClient) : List Nat :=
  (List.range c.created).filter fun i => !(c.streams i).closing

def observed (c : TcpClient) : Bool × List Nat × UInt64 :=
  (c.isOpen, c.openStreams, c.dataOffset)

theorem Follows.observed (h : c.Follows d) : c.observed = d.observed := by
  obtain ⟨k, rfl, _⟩ := h
  rfl

/-- As long as no connection ends for which null was passed in the place of a close callback, the
run without the callbacks goes through the same observations. -/
theorem null_callbacks_unobserved {es : List (Event × Subset)}
    (hspared : Along (sideBySide stepWithout stepWith) Spared ({}, {}) es) (n : Nat) :
    (exec stepWithout {} (es.take n)).map observed =
      (exec stepWith {} (es.take n)).map observed := by
  have hstart : Follows {} {} :=
    ⟨⟨.null, .null, .null, [], []⟩, rfl, ⟨.inl rfl, .inl rfl, .inl rfl, .nil⟩⟩
  have hsim : ∀ c d e, Follows c d → Spared (c, d) e →
      Option.Rel Follows (stepWithout c e) (stepWith d e) := fun _ _ _ h hspared => h.step hspared
  have hend := exec_lockstep hsim hstart (hspared.take n)
  exact map_eq_of_rel (fun _ _ h => h.observed) hend

def silentArgs : ConnectArgs :=
  { connectCallback := .silent, receiveCallback := .silent, closeCallback := .silent }

/-- A connection with callbacks that do nothing, which the peer ends; null is passed for the ones
of `subset`. -/
def endedByPeer (subset : Subset) : List (Event × Subset) :=
  [(.call (.connect silentArgs), subset), (.loop (.scheduled {}), {}),
    (.loop (.connected 0 {} {}), {}), (.loop (.data 0 5), {}),
    (.loop (.failure 0 (.ofCode .endOfFile) {}), {}), (.loop (.closed 0), {})]

/-- Without a close callback the client stays open, with its stream, when the peer is gone. -/
theorem null_close_callback_observed :
    (exec stepWithout {} ((endedByPeer { close := true }).take 5)).map observed =
        some (true, [0], 5) ∧
      (exec stepWith {} ((endedByPeer { close := true }).take 5)).map observed =
        some (false, [], 5) := by
  decide +kernel

theorem null_callbacks_unobserved_endedByPeer :
    Along (sideBySide stepWithout stepWith) Spared ({}, {})
        (endedByPeer { connect := true, receive := true }) ∧
      (exec stepWithout {} ((endedByPeer { connect := true, receive := true }).take 6)).map
          observed =
        (exec stepWith {} ((endedByPeer { connect := true, receive := true }).take 6)).map
          observed := by
  have hspared : Along (sideBySide stepWithout stepWith) Spared ({}, {})
      (endedByPeer { connect := true, receive := true }) := by
    decide +kernel
  exact ⟨hspared, null_callbacks_unobserved hspared 6⟩

end TcpClient

end TarmIo.Net.Tcp
