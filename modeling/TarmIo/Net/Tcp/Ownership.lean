import TarmIo.Net.Tcp.Steps

/-!
# Who owns the stream handles of a `TcpClient`

`connect` gives the stream up at once and `connect_impl` makes the next one later, so the
flag, the pointer and the handles can come apart in between; and `connect_impl` replaces the
connect request, which libuv may still have. All stay together exactly when nobody connects an
open client, every scheduled connect finds the pointer null and no request pending, and libuv
takes each stream that it is asked to reset.
-/

namespace TarmIo.Net.Tcp

open Foundation

def Frame.reads : Frame → Option Nat
  | .connected i _ | .connectReset i _ _ | .connectResetClosed i _ => some i
  | _ => none

def RequestDone (connectReq : Option Nat) (streams : Nat → Stream) : Prop :=
  ∀ i ∈ connectReq, (streams i).connecting = false

instance (connectReq : Option Nat) (streams : Nat → Stream) :
    Decidable (RequestDone connectReq streams) :=
  inferInstanceAs (Decidable (∀ i ∈ connectReq, (streams i).connecting = false))

/-- Where the handles are. A handle that is neither closing nor the current stream was not
made yet, or `on_read` holds it in `old_tcp_stream` and closes it after the callback. `kept` says
that no pending connect request was freed. -/
structure Ownership (kept : Prop) (tcpStream : Option Nat) (isOpen : Bool)
    (connectReq : Option Nat) (streams : Nat → Stream) (created : Nat) (running : Option Frame) :
    Prop where
  place : ∀ i, ((streams i).closing = true ∧ (streams i).reading = false) ∨
    tcpStream = some i ∨
    ((streams i).connecting = false ∧ (streams i).reading = false ∧
      running.bind Frame.reads ≠ some i ∧ (running = some (.readFailed i) ∨ created ≤ i))
  requests : ∀ i, (streams i).reading = true ∨ running.bind Frame.reads = some i →
    (streams i).connecting = false ∧ RequestDone connectReq streams
  pending : kept → ∀ i, (streams i).connecting = true → connectReq = some i
  fresh : ∀ i, created ≤ i → (streams i).connecting = false
  current : ∀ i, tcpStream = some i → (streams i).closing = false ∧ i < created
  opened : isOpen = true → ∃ i, tcpStream = some i ∧ (streams i).connected = true
  held : ∀ i, running = some (.readFailed i) → tcpStream = none ∧ isOpen = false
  ending : ∀ i, running = some (.shutdownFailed i) → tcpStream = none ∨ tcpStream = some i

namespace Ownership

variable {kept : Prop} {tcpStream : Option Nat} {isOpen : Bool} {connectReq : Option Nat}
  {streams : Nat → Stream} {created i : Nat} {running : Option Frame}

section

variable (h : Ownership kept tcpStream isOpen connectReq streams created running)
include h

theorem setClosed : Ownership kept tcpStream false connectReq streams created running :=
  { h with opened := nofun, held := fun i hi => ⟨(h.held i hi).1, rfl⟩ }

theorem close (hstream : tcpStream = some i) (owned : Bool) :
    Ownership kept none false connectReq
      (Function.update streams i
        { streams i with owned := owned, closing := true, reading := false })
      created running := by
  obtain ⟨hplace, hrequests, hpending, hfresh, hcurrent, hopened, hheld, hending⟩ := h
  constructor <;> grind [RequestDone]

theorem disown (hstream : tcpStream = some i) (hrest : running = none)
    (hidle : (streams i).connecting = false ∧ (streams i).reading = false) :
    Ownership kept none false connectReq
      (Function.update streams i { streams i with owned := false })
      created (some (.readFailed i)) := by
  obtain ⟨hplace, hrequests, hpending, hfresh, hcurrent, hopened, hheld, hending⟩ := h
  constructor <;> grind [RequestDone, Frame.reads]

end

theorem closeOld
    (h : Ownership kept tcpStream isOpen connectReq streams created (some (.readFailed i))) :
    Ownership kept tcpStream isOpen connectReq
      (Function.update streams i { streams i with closing := true, reading := false })
      created none := by
  obtain ⟨hplace, hrequests, hpending, hfresh, hcurrent, hopened, hheld, hending⟩ := h
  constructor <;> grind [RequestDone, Frame.reads]

section

variable (h : Ownership kept tcpStream isOpen connectReq streams created running)
include h

/-- A stream that is read leaves no request behind that could be freed. -/
theorem read (hreading : (streams i).reading = true) :
    Ownership kept tcpStream isOpen none streams created running := by
  obtain ⟨hplace, hrequests, hpending, hfresh, hcurrent, hopened, hheld, hending⟩ := h
  constructor <;> grind [RequestDone]

theorem initStream (hstream : tcpStream = none) (hrest : running = none) (bytes : UInt64) :
    Ownership kept (some created) isOpen connectReq
      (Function.update streams created { bytesBefore := bytes }) (created + 1) running := by
  obtain ⟨hplace, hrequests, hpending, hfresh, hcurrent, hopened, hheld, hending⟩ := h
  constructor <;> grind [RequestDone]

theorem newRequest (hstream : tcpStream = some i) (hrest : running = none)
    (hidle : (streams i).reading = false)
    (hdone : kept → RequestDone connectReq streams) (pending : Bool) :
    Ownership kept tcpStream isOpen (some i)
      (Function.update streams i { streams i with connecting := pending }) created running := by
  obtain ⟨hplace, hrequests, hpending, hfresh, hcurrent, hopened, hheld, hending⟩ := h
  constructor <;> grind [RequestDone]

theorem finishConnect (hrest : running = none) (hpending : (streams i).connecting = true)
    {ok : Bool} (hok : ok = true → (streams i).closing = false) :
    Ownership kept tcpStream ok connectReq
      (Function.update streams i { streams i with connecting := false, connected := ok })
      created running := by
  obtain ⟨hplace, hrequests, hpending, hfresh, hcurrent, hopened, hheld, hending⟩ := h
  constructor <;> grind [RequestDone]

theorem startRead (hstream : tcpStream = some i) (hidle : (streams i).connecting = false)
    (hdone : RequestDone connectReq streams) :
    Ownership kept tcpStream isOpen connectReq
      (Function.update streams i { streams i with reading := true }) created running := by
  obtain ⟨hplace, hrequests, hpending, hfresh, hcurrent, hopened, hheld, hending⟩ := h
  constructor <;> grind [RequestDone]

/-- What happens to a stream otherwise: its shutdown requests, the end of reading or of closing. -/
theorem touch {x : Stream} (hclosing : x.closing = (streams i).closing)
    (hconnecting : x.connecting = (streams i).connecting)
    (hconnected : x.connected = (streams i).connected)
    (hreading : x.reading = true → (streams i).reading = true) :
    Ownership kept tcpStream isOpen connectReq (Function.update streams i x) created running := by
  obtain ⟨hplace, hrequests, hpending, hfresh, hcurrent, hopened, hheld, hending⟩ := h
  constructor <;> grind [RequestDone]

end

def Readable (tcpStream connectReq : Option Nat) (streams : Nat → Stream) (i : Nat) : Prop :=
  ((streams i).connecting = false ∧ RequestDone connectReq streams) ∧
    ((streams i).closing = true ∨ tcpStream = some i)

section

variable (h : Ownership kept tcpStream isOpen connectReq streams created running)
include h

variable {frame : Frame}

theorem enter (hrest : running = none) (hheld : ∀ i, frame ≠ .readFailed i)
    (hreads : ∀ i, frame.reads = some i → Readable tcpStream connectReq streams i)
    (hending : ∀ i, frame = .shutdownFailed i → tcpStream = none ∨ tcpStream = some i) :
    Ownership kept tcpStream isOpen connectReq streams created (some frame) := by
  obtain ⟨hplace, hrequests, hpending, hfresh, hcurrent, hopened, _, _⟩ := h
  constructor <;> grind [RequestDone, Readable]

theorem leave (hrunning : running = some frame) (hheld : ∀ i, frame ≠ .readFailed i) :
    Ownership kept tcpStream isOpen connectReq streams created none := by
  obtain ⟨hplace, hrequests, hpending, hfresh, hcurrent, hopened, _, _⟩ := h
  constructor <;> grind [RequestDone]

theorem readable_of_reads (hrunning : running = some frame) (hreads : frame.reads = some i) :
    Readable tcpStream connectReq streams i := by
  subst hrunning
  refine ⟨h.requests i (.inr hreads), ?_⟩
  rcases h.place i with hclosing | hcurrent | hrest
  · exact .inl hclosing.1
  · exact .inr hcurrent
  · exact absurd hreads hrest.2.2.1

end

end Ownership

namespace TcpClient

variable {c c' : TcpClient} {i : Nat} {kept : Prop}

def Owns (kept : Prop) (c : TcpClient) : Prop :=
  Ownership kept c.tcpStream c.isOpen c.connectReq c.streams c.created c.running

theorem Owns.current_of_reading (h : c.Owns kept) (hreading : (c.streams i).reading = true) :
    c.tcpStream = some i := by
  rcases h.place i with hclosing | hcurrent | hrest
  · simp [hreading] at hclosing
  · exact hcurrent
  · simp [hreading] at hrest

/-! ## The user's calls -/

theorem Owns.closeStream (h : c.Owns kept) {accepted : Bool}
    (haccepted : accepted = true ∨ c.tcpStream = none) : (c.closeStream accepted).Owns kept := by
  unfold TcpClient.closeStream
  split
  · exact h.setClosed
  · rename_i i hstream
    rw [(h.current i hstream).1, if_neg Bool.false_ne_true,
      if_pos (by simpa [hstream] using haccepted)]
    exact h.close hstream (c.streams i).owned

theorem Owns.connect (h : c.Owns kept) (hopen : c.isOpen = false) (args : ConnectArgs) :
    (c.connect args).Owns kept := by
  show c.tearDown.Owns kept
  unfold TcpClient.tearDown
  split
  · exact h
  · rename_i i hstream
    have hclosed := h.close hstream false
    simpa [Owns, uvClose, onStream, hopen] using hclosed

/-- On an open client `send_data` uses the connected stream. -/
theorem Owns.sendData (h : c.Owns kept) (buffer : Option (List UInt8)) (size : UInt32) :
    c.sendData buffer size = c := by
  unfold TcpClient.sendData
  split
  · rfl
  · rename_i hopen
    obtain ⟨i, hstream, _⟩ := h.opened (by simpa using hopen)
    simp [hstream, (h.current i hstream).1]

/-! ## The handlers -/

variable {frame : Frame}

/-- A callback after which the handler does nothing more. -/
theorem Owns.invoke_last (h : c.Owns kept) (hrest : c.running = none)
    (hlast : frame = .connectFailed ∨ frame = .readStartFailed ∨ frame = .closed)
    (callback : Callback) (call : Call) : (c.invoke callback call frame id).Owns kept := by
  refine invoke_cases (fun _ => h) (fun _ => ?_)
  rcases hlast with rfl | rfl | rfl <;> exact h.enter hrest nofun nofun nofun

theorem Owns.initStream (h : c.Owns kept) (hrest : c.running = none) (hfree : c.tcpStream = none) :
    c.initStream.Owns kept :=
  Ownership.initStream h hfree hrest c.dataOffset

theorem Owns.newRequest (h : c.Owns kept) (hrest : c.running = none) (hfree : c.tcpStream = none)
    (hdone : kept → RequestDone c.connectReq c.streams) (pending : Bool) :
    Ownership kept (some c.created) c.isOpen (some c.created)
      (Function.update c.initStream.streams c.created
        { c.initStream.streams c.created with connecting := pending })
      (c.created + 1) c.running := by
  have hinit : c.initStream.Owns kept := h.initStream hrest hfree
  refine Ownership.newRequest hinit rfl hrest ?_ ?_ pending
  · simp [TcpClient.initStream]
  · intro hkept i hi
    by_cases hmade : i = c.created
    · subst hmade
      simp [TcpClient.initStream]
    · simpa [TcpClient.initStream, hmade] using hdone hkept i hi

theorem Owns.connectImpl (h : c.Owns kept) (hrest : c.running = none) {args : ConnectArgs}
    {uv : UvConnect} (hfree : c.tcpStream = none ∨ args.endpointDefined = false)
    (hdone : kept → args.endpointDefined = false ∨ uv.init.isError = true ∨
      RequestDone c.connectReq c.streams) : (c.connectImpl args uv).Owns kept := by
  unfold TcpClient.connectImpl
  split
  · exact h.invoke_last hrest (.inl rfl) _ _
  · rename_i hdefined
    have hdefined : args.endpointDefined ≠ false := by simpa using hdefined
    have hnone : c.tcpStream = none := hfree.resolve_right hdefined
    split
    · exact (h.initStream hrest hnone).invoke_last hrest (.inl rfl) _ _
    · rename_i hinit
      have hnew := h.newRequest hrest hnone fun hkept =>
        ((hdone hkept).resolve_left hdefined).resolve_left hinit
      split
      · refine Owns.invoke_last
          (c := (c.initStream.resetConnectReq (some c.created)).setCallbacks args) ?_ hrest
          (.inl rfl) _ _
        have hidle := hnew false
        simpa [Owns, TcpClient.initStream, setCallbacks, resetConnectReq] using hidle
      · exact hnew true

theorem Owns.startRead (h : c.Owns kept) (hrest : c.running = none)
    (hreadable : Ownership.Readable c.tcpStream c.connectReq c.streams i) (readStart : Error) :
    (c.startRead i readStart).Owns kept := by
  unfold TcpClient.startRead
  split
  · exact h
  · split
    · exact h.invoke_last hrest (.inr (.inl rfl)) _ _
    · split
      · exact h.invoke_last hrest (.inr (.inl rfl)) _ _
      · rename_i hopen _
        exact Ownership.startRead h (hreadable.2.resolve_left hopen) hreadable.1.1 hreadable.1.2

theorem Owns.afterReset (h : c.Owns kept) (hrest : c.running = none)
    (hreadable : Ownership.Readable c.tcpStream c.connectReq c.streams i)
    (status readStart : Error) :
    (c.afterReset i status readStart).Owns kept := by
  refine invoke_cases (fun calls => ?_) (fun _ => ?_)
  · exact Owns.startRead (c := { c with calls := calls, closeCallback := .null }) h hrest hreadable
      readStart
  · refine h.enter hrest nofun ?_ nofun
    rintro _ ⟨⟩
    exact hreadable

theorem Owns.onConnect (h : c.Owns kept) (hrest : c.running = none) {status : Error}
    (hrequest : c.connectReq = some i) (hpending : (c.streams i).connecting = true)
    (hstatus : CompletesWith (c.streams i) status) (readStart : Error) :
    (c.onConnect i status readStart).Owns kept := by
  have hok : (!status.isError) = true → (c.streams i).closing = false := by
    intro hok
    by_contra hclosing
    simp [Error.isError, hstatus (by simpa using hclosing)] at hok
  have hfinished : (c.finishConnect i status).Owns kept :=
    Ownership.finishConnect h hrest hpending hok
  have hreadable :
      Ownership.Readable c.tcpStream c.connectReq (c.finishConnect i status).streams i := by
    refine ⟨⟨by simp [TcpClient.finishConnect, onStream], ?_⟩, ?_⟩
    · rw [hrequest]
      rintro _ ⟨⟩
      simp [TcpClient.finishConnect, onStream]
    rcases h.place i with hclosing | hcurrent | hother
    · exact .inl (by simpa [TcpClient.finishConnect, onStream] using hclosing.1)
    · exact .inr hcurrent
    · simp [hpending] at hother
  have hread : ∀ j, some i = some j →
      Ownership.Readable c.tcpStream c.connectReq (c.finishConnect i status).streams j := by
    rintro _ ⟨⟩
    exact hreadable
  unfold TcpClient.onConnect
  split
  · refine invoke_cases (fun calls => ?_) (fun _ => hfinished.enter hrest (by simp) hread (by simp))
    exact Owns.afterReset (c := { c.finishConnect i status with calls := calls }) hfinished hrest
      hreadable status readStart
  · refine invoke_cases (fun calls => ?_) (fun _ => hfinished.enter hrest (by simp) hread (by simp))
    exact Owns.startRead
      (c := { (c.finishConnect i status).dropCallbacks status with calls := calls })
      hfinished hrest hreadable readStart

theorem Owns.onData (h : c.Owns kept) (hrest : c.running = none) (size : UInt64) :
    (c.onData i size).Owns kept := by
  unfold TcpClient.onData
  split
  · exact h
  · exact invoke_cases (fun _ => h) (fun _ => h.enter hrest nofun nofun nofun)

theorem Owns.onFailure (h : c.Owns kept) (hrest : c.running = none)
    (hidle : ∀ i, c.tcpStream = some i →
      (c.streams i).connecting = false ∧ (c.streams i).reading = false)
    (error socketError : Error) : (c.onFailure error socketError).Owns kept := by
  unfold TcpClient.onFailure
  split
  · split
    · exact h
    · split
      · exact h
      · exact h.setClosed
  · rename_i old hstream
    split
    · exact h
    · have hheld := h.disown hstream hrest (hidle old hstream)
      refine invoke_cases (fun _ => ?_) (fun _ => hheld)
      have hclosed := hheld.closeOld
      simpa [Owns, TcpClient.disown, uvClose, onStream, hrest] using hclosed

theorem Owns.finishShutdown (h : c.Owns kept)
    (hstream : c.tcpStream = none ∨ c.tcpStream = some i) :
    (c.finishShutdown i).Owns kept := by
  unfold TcpClient.finishShutdown
  split
  · exact h.setClosed
  · rename_i j hj
    obtain rfl : i = j := by simpa [hj, eq_comm] using hstream
    split
    · exact h.setClosed
    · exact h.close hj _

theorem Owns.onShutdown (h : c.Owns kept) (hrest : c.running = none)
    (hstream : c.tcpStream = none ∨ c.tcpStream = some i) (status : Error) :
    (c.onShutdown i status).Owns kept := by
  unfold TcpClient.onShutdown
  split
  · refine invoke_cases (fun calls => ?_) (fun _ => h.enter hrest nofun nofun ?_)
    · exact Owns.finishShutdown (c := { c with calls := calls }) h hstream
    · rintro _ ⟨⟩
      exact hstream
  · exact h.finishShutdown hstream

theorem Owns.onClose (h : c.Owns kept) (hrest : c.running = none) : (c.onClose i).Owns kept := by
  unfold TcpClient.onClose
  split
  · exact h.invoke_last hrest (.inr (.inr rfl)) _ _
  · exact h

theorem Owns.resume (h : c.Owns kept) (hrunning : c.running = some frame) :
    ({ c with running := none }.resume frame).Owns kept := by
  cases frame with
  | connectFailed | readStartFailed | closed => exact h.leave hrunning nofun
  | received i size => exact h.leave hrunning nofun
  | connected i readStart =>
      exact Owns.startRead (c := { c with running := none }) (h.leave hrunning nofun) rfl
        (h.readable_of_reads hrunning rfl) readStart
  | connectReset i status readStart =>
      exact Owns.afterReset (c := { c with running := none }) (h.leave hrunning nofun) rfl
        (h.readable_of_reads hrunning rfl) status readStart
  | connectResetClosed i readStart =>
      exact Owns.startRead (c := { c with running := none, closeCallback := .null })
        (h.leave hrunning nofun) rfl (h.readable_of_reads hrunning rfl) readStart
  | readFailed old =>
      unfold Owns at h
      rw [hrunning] at h
      exact h.closeOld
  | shutdownFailed i =>
      exact Owns.finishShutdown (c := { c with running := none }) (h.leave hrunning nofun)
        (h.ending i hrunning)

/-! ## Runs -/

variable {e : Event}

def KeepsHandles (c : TcpClient) : Event → Prop
  | .call (.connect _) => c.isOpen = false
  | .call (.closeWithReset accepted) => accepted = true ∨ c.tcpStream = none
  | .loop (.scheduled _) =>
      c.tcpStream = none ∨ ∀ args ∈ c.scheduled.head?, args.endpointDefined = false
  | _ => True

/-- A scheduled connect frees no connect request that is pending. -/
def KeepsRequest (c : TcpClient) : Event → Prop
  | .loop (.scheduled uv) =>
      (∀ args ∈ c.scheduled.head?, args.endpointDefined = false) ∨ uv.init.isError = true ∨
        RequestDone c.connectReq c.streams
  | _ => True

def Orderly (c : TcpClient) (e : Event) : Prop := c.KeepsHandles e ∧ c.KeepsRequest e

instance (c : TcpClient) (e : Event) : Decidable (c.KeepsHandles e) := by
  rcases e with (_ | _ | _ | _ | _) | _ | (_ | _ | _ | _ | _ | _) <;>
    unfold KeepsHandles <;> infer_instance

instance (c : TcpClient) (e : Event) : Decidable (c.KeepsRequest e) := by
  rcases e with _ | _ | (_ | _ | _ | _ | _ | _) <;> unfold KeepsRequest <;> infer_instance

instance (c : TcpClient) (e : Event) : Decidable (c.Orderly e) :=
  inferInstanceAs (Decidable (_ ∧ _))

theorem Owns.shutdown (h : c.Owns kept) (accepted : Bool) : (c.shutdown accepted).Owns kept := by
  unfold TcpClient.shutdown
  split
  · split
    · exact h
    · split
      · exact h.touch rfl rfl rfl id
      · exact h
  · exact h

theorem Owns.apply (h : c.Owns kept) {user : UserCall} (hhandles : c.KeepsHandles (.call user)) :
    (c.apply user).Owns kept := by
  cases user with
  | connect args => exact h.connect hhandles args
  | close => exact h.closeStream (.inl rfl)
  | closeWithReset accepted => exact h.closeStream hhandles
  | shutdown accepted => exact h.shutdown accepted
  | sendData buffer size => exact (congrArg (Owns kept) (h.sendData buffer size)).mpr h

/-- Shutdown requests are pending for no stream but the current one, or there is none. -/
def ShutsCurrent (c : TcpClient) : Prop :=
  ∀ i, 0 < (c.streams i).shutdowns → c.tcpStream = none ∨ c.tcpStream = some i

theorem Owns.handle (h : c.Owns kept) (hrest : c.running = none) {completion : Completion}
    (hhandles : c.KeepsHandles (.loop completion))
    (hrequest : kept → c.KeepsRequest (.loop completion)) (hshuts : c.ShutsCurrent)
    (hstep : c.handle completion = some c') : c'.Owns kept := by
  cases completion with
  | scheduled uv =>
      rw [TcpClient.handle] at hstep
      split at hstep
      · cases hstep
      · rename_i args rest hscheduled
        cases hstep
        have hfirst : args ∈ c.scheduled.head? := by simp [hscheduled]
        refine Owns.connectImpl (c := { c with scheduled := rest }) h hrest ?_ fun hkept => ?_
        · exact hhandles.imp id fun hundefined => hundefined args hfirst
        · exact (hrequest hkept).imp (fun hundefined => hundefined args hfirst) id
  | connected i status readStart =>
      obtain ⟨⟨hheld, hpending, hstatus⟩, rfl⟩ := by simpa [TcpClient.handle] using hstep
      exact h.onConnect hrest hheld hpending hstatus readStart
  | data i size =>
      obtain ⟨hreading, rfl⟩ := by simpa [TcpClient.handle] using hstep
      exact Owns.onData (c := c.resetConnectReq none) (h.read hreading) hrest size
  | failure i error socketError =>
      obtain ⟨⟨hreading, _⟩, rfl⟩ := by simpa [TcpClient.handle] using hstep
      have hstopped :
          ((c.resetConnectReq none).onStream i fun h => { h with reading := false }).Owns kept :=
        (h.read hreading).touch rfl rfl rfl (by simp)
      refine hstopped.onFailure hrest ?_ error socketError
      intro j hj
      obtain rfl : i = j := Option.some.inj ((h.current_of_reading hreading).symm.trans hj)
      simp [onStream, resetConnectReq, h.requests i (.inl hreading)]
  | shutdown i status =>
      obtain ⟨⟨hpending, _⟩, rfl⟩ := by simpa [TcpClient.handle] using hstep
      have htouched : (c.onStream i fun h => { h with shutdowns := h.shutdowns - 1 }).Owns kept :=
        h.touch rfl rfl rfl id
      exact htouched.onShutdown hrest (hshuts i hpending) status
  | closed i =>
      obtain ⟨_, rfl⟩ := by simpa [TcpClient.handle] using hstep
      have htouched : (c.onStream i fun h => { h with closed := true }).Owns kept :=
        h.touch rfl rfl rfl id
      exact htouched.onClose hrest

theorem step_owns (h : c.Owns kept) (hhandles : c.KeepsHandles e)
    (hrequest : kept → c.KeepsRequest e) (hshuts : c.ShutsCurrent) (hstep : c.step e = some c') :
    c'.Owns kept := by
  cases e with
  | call user =>
      cases hstep
      exact h.apply hhandles
  | leave =>
      rw [step] at hstep
      split at hstep
      · cases hstep
      · rename_i frame hrunning
        cases hstep
        exact h.resume hrunning
  | loop completion =>
      obtain ⟨hrest, hstep⟩ := by simpa [step] using hstep
      exact h.handle hrest hhandles hrequest hshuts hstep

def Event.isShutdown : Event → Bool
  | .call (.shutdown _) => true
  | _ => false

/-- Only `shutdown` adds a shutdown request. -/
theorem step_shutdowns (hcall : e.isShutdown = false) (hstep : c.step e = some c')
    (hnone : ∀ j, (c.streams j).shutdowns = 0) (j : Nat) : (c'.streams j).shutdowns = 0 := by
  rcases step_cases hstep with hsteady | ⟨args, rfl, rfl⟩ | ⟨i, rfl, _⟩ |
    ⟨uv, args, rest, rfl, hrest, _, rfl⟩ | ⟨i, size, rfl, _, _, rfl⟩ | ⟨i, size, rfl, _, rfl⟩
  · exact Nat.le_zero.mp (hnone j ▸ hsteady.shutdowns j)
  · exact Nat.le_zero.mp (hnone j ▸ (steady_tearDown c).shutdowns j)
  · cases hcall
  · cases hdefined : args.endpointDefined with
    | false =>
        have hsteady := steady_connectImpl (c := { c with scheduled := rest })
          (by simp [ledger, hrest]) hdefined uv
        exact Nat.le_zero.mp (hnone j ▸ hsteady.shutdowns j)
    | true =>
        have hnew := connectImpl_renewed { c with scheduled := rest } args hdefined uv
        exact Nat.le_zero.mp (hnone j ▸ hnew.shutdowns_le j)
  · rw [onData_streams]
    exact hnone j
  · exact hnone j

def WithoutShutdown (_ : TcpClient) (e : Event) : Prop := e.isShutdown = false

instance (c : TcpClient) (e : Event) : Decidable (c.WithoutShutdown e) :=
  inferInstanceAs (Decidable (_ = _))

/-- The flag, the pointer and the handles agree, and libuv has no connect request that was freed.
While the close callback of a failed read runs, `on_read` holds the stream that it closes next. -/
structure HandlesOwned (c : TcpClient) : Prop where
  opened : c.isOpen = true →
    ∃ i, c.tcpStream = some i ∧ (c.streams i).connected = true ∧ (c.streams i).closing = false
  owned : ∀ i < c.created, c.tcpStream = some i ∨ (c.streams i).closing = true ∨
    c.running = some (.readFailed i)
  sends : ∀ buffer size, c.sendData buffer size = c
  requests : ∀ i, (c.streams i).connecting = true → c.connectReq = some i

theorem Owns.handlesOwned (h : c.Owns True) : c.HandlesOwned := by
  refine ⟨fun hopen => ?_, fun i hi => ?_, h.sendData, h.pending trivial⟩
  · obtain ⟨i, hstream, hconnected⟩ := h.opened hopen
    exact ⟨i, hstream, hconnected, (h.current i hstream).1⟩
  · rcases h.place i with hclosing | hcurrent | hrest
    · exact .inr (.inl hclosing.1)
    · exact .inl hcurrent
    · exact .inr (.inr (hrest.2.2.2.resolve_right (Nat.not_le_of_lt hi)))

theorem start_owns (kept : Prop) : Owns kept {} := by
  constructor <;> simp

/-- The stream of the pointer is lost when the pointer changes and nobody closes it. -/
theorem not_handlesOwned_of_lost {i : Nat} (hmade : i < c.created) (hstream : c.tcpStream ≠ some i)
    (hopen : (c.streams i).closing = false) (hheld : c.running ≠ some (.readFailed i)) :
    ¬ c.HandlesOwned := by
  intro h
  rcases h.owned i hmade with hcurrent | hclosing | hrunning
  · exact hstream hcurrent
  · simp [hopen] at hclosing
  · exact hheld hrunning

/-- A step that does not keep the handles together parts them at once. -/
theorem not_handlesOwned_of_handles (h : c.Owns kept) (hbad : ¬ c.KeepsHandles e)
    (hstep : c.step e = some c') : ¬ c'.HandlesOwned := by
  cases e with
  | leave => exact absurd trivial hbad
  | call user =>
      cases hstep
      cases user with
      | connect args =>
          -- The flag stays set while the pointer is null.
          intro hafter
          have hopen : c.isOpen = true := by simpa [KeepsHandles] using hbad
          obtain ⟨i, hstream, _⟩ := hafter.opened ((tearDown_isOpen c).trans hopen)
          cases (tearDown_tcpStream c).symm.trans hstream
      | closeWithReset accepted =>
          obtain ⟨hrefused, hstream⟩ := not_or.mp hbad
          obtain ⟨i, hstream⟩ := Option.ne_none_iff_exists'.mp hstream
          have ⟨hopen, hmade⟩ := h.current i hstream
          have hafter : c.apply (.closeWithReset accepted) =
              { c with isOpen := false, tcpStream := none } := by
            simp [apply, closeWithReset, TcpClient.closeStream, hstream, hopen, hrefused]
          rw [hafter]
          refine not_handlesOwned_of_lost (i := i) hmade (by simp) hopen ?_
          intro hrunning
          cases (h.held i hrunning).1.symm.trans hstream
      | close | shutdown accepted | sendData buffer size => exact absurd trivial hbad
  | loop completion =>
      cases completion with
      | scheduled uv =>
          obtain ⟨hstream, hdefined⟩ := not_or.mp hbad
          obtain ⟨i, hstream⟩ := Option.ne_none_iff_exists'.mp hstream
          obtain ⟨args, rest, hscheduled, hrest, rfl⟩ := step_scheduled hstep
          have ⟨hopen, hmade⟩ := h.current i hstream
          have hnew := connectImpl_renewed { c with scheduled := rest } args
            (by simpa [hscheduled] using hdefined) uv
          refine not_handlesOwned_of_lost (i := i) ?_ ?_ ?_ ?_
          · rw [hnew.created]
            exact Nat.lt_succ_of_lt hmade
          · rw [hnew.tcpStream]
            simpa using (Nat.ne_of_lt hmade).symm
          · rw [hnew.streams i (Nat.ne_of_lt hmade)]
            exact hopen
          · rcases hnew.running with hsame | hfailed
            · intro hheld
              cases hrest.symm.trans (hsame.symm.trans hheld)
            · intro hheld
              cases hfailed.symm.trans hheld
      | connected | data | failure | shutdown | closed => exact absurd trivial hbad

/-- A pending request that is not the one of the new stream was freed. -/
theorem not_handlesOwned_of_request (h : c.Owns kept) (hbad : ¬ c.KeepsRequest e)
    (hstep : c.step e = some c') : ¬ c'.HandlesOwned := by
  cases e with
  | call | leave => exact absurd trivial hbad
  | loop completion =>
      cases completion with
      | scheduled uv =>
          obtain ⟨hdefined, hbad⟩ := not_or.mp hbad
          obtain ⟨hinit, hpending⟩ := not_or.mp hbad
          obtain ⟨args, rest, hscheduled, _, rfl⟩ := step_scheduled hstep
          have hdefined : args.endpointDefined = true := by simpa [hscheduled] using hdefined
          obtain ⟨i, _, hi⟩ : ∃ i ∈ c.connectReq, (c.streams i).connecting = true := by
            simpa [RequestDone] using hpending
          have hmade : i ≠ c.created := by
            rintro rfl
            simp [h.fresh c.created (Nat.le_refl _)] at hi
          have hnew := connectImpl_renewed { c with scheduled := rest } args hdefined uv
          intro hafter
          have hheld := hafter.requests i (by rw [hnew.streams i hmade]; exact hi)
          rw [connectImpl_connectReq hdefined (by simpa using hinit)] at hheld
          exact hmade (Option.some.inj hheld).symm
      | connected | data | failure | shutdown | closed => exact absurd trivial hbad

theorem not_handlesOwned_of_step (h : c.Owns kept) (hbad : ¬ c.Orderly e)
    (hstep : c.step e = some c') : ¬ c'.HandlesOwned := by
  by_cases hhandles : c.KeepsHandles e
  · exact not_handlesOwned_of_request h (fun hrequest => hbad ⟨hhandles, hrequest⟩) hstep
  · exact not_handlesOwned_of_handles h hhandles hstep

/-- In the runs without `shutdown` the handles are owned exactly when every step is orderly. -/
theorem handles_owned_iff {es : List Event}
    (h : (exec (restrict WithoutShutdown step) {} es).isSome = true) :
    Throughout (restrict WithoutShutdown step) HandlesOwned {} es ↔
      Along (restrict WithoutShutdown step) Orderly {} es := by
  obtain ⟨t, ht⟩ := Option.isSome_iff_exists.mp h
  refine throughout_iff_along
    (fun c (hc : c.Owns True ∧ ∀ i, (c.streams i).shutdowns = 0) => hc.1.handlesOwned) ?_ ?_ ?_ ht
  · rintro c e c' ⟨howns, hnone⟩ horderly hstep
    obtain ⟨hdomain, hstep⟩ := restrict_eq_some.mp hstep
    refine ⟨step_owns howns horderly.1 (fun _ => horderly.2) (fun i hi => ?_) hstep, fun i => ?_⟩
    · simp [hnone i] at hi
    · exact step_shutdowns hdomain hstep hnone i
  · rintro c e c' ⟨howns, _⟩ hbad hstep
    exact not_handlesOwned_of_step howns hbad (restrict_eq_some.mp hstep).2
  · exact ⟨start_owns True, fun _ => rfl⟩

def reconnectedOpen : List Event := connecting {} ++ [.call (.connect {})]

def connectedTwice : List Event :=
  [.call (.connect {}), .call (.connect {}), .loop (.scheduled {}), .loop (.scheduled {})]

/-- The client is connected again, from a timer say, before its first connect has completed. -/
def reconnectedPending : List Event :=
  [.call (.connect {}), .loop (.scheduled {}), .call (.connect {}), .loop (.scheduled {})]

/-- The first run ends with an open client without a stream, to which the next send writes; the
second forgets a stream that nobody closes; the third frees the connect request of the stream
that it has closed, and libuv will complete that request. -/
theorem handles_parted :
    ¬ Throughout (restrict WithoutShutdown step) HandlesOwned {} reconnectedOpen ∧
      ¬ Throughout (restrict WithoutShutdown step) HandlesOwned {} connectedTwice ∧
      ¬ Throughout (restrict WithoutShutdown step) HandlesOwned {} reconnectedPending := by
  refine ⟨?_, ?_, ?_⟩
  · have hend : ∃ c ∈ exec (restrict WithoutShutdown step) {} reconnectedOpen,
        c.isOpen = true ∧ c.tcpStream = none := by
      decide +kernel
    obtain ⟨c, hrun, hopen, hnone⟩ := hend
    intro h
    obtain ⟨i, hstream, _⟩ := (h.last hrun).opened hopen
    exact nomatch hnone.symm.trans hstream
  · have hend : ∃ c ∈ exec (restrict WithoutShutdown step) {} connectedTwice,
        c.created = 2 ∧ c.tcpStream = some 1 ∧ (c.streams 0).closing = false ∧
          c.running = none := by
      decide +kernel
    obtain ⟨c, hrun, hcreated, hstream, hopen, hrest⟩ := hend
    intro h
    refine not_handlesOwned_of_lost (i := 0) ?_ ?_ hopen ?_ (h.last hrun)
    · simp [hcreated]
    · simp [hstream]
    · simp [hrest]
  · have hend : ∃ c ∈ exec (restrict WithoutShutdown step) {} reconnectedPending,
        (c.streams 0).connecting = true ∧ c.connectReq = some 1 := by
      decide +kernel
    obtain ⟨c, hrun, hpending, hrequest⟩ := hend
    intro h
    cases hrequest.symm.trans ((h.last hrun).requests 0 hpending)

/-- The peer ends the connection and the user connects again in the close callback, sends, and
at last closes the client. -/
def reconnectedClosed : List Event :=
  connecting { closeCallback := .user } ++
    [.loop (.failure 0 (.ofCode .endOfFile) {}), .call (.connect {}), .leave,
      .loop (.scheduled {}), .loop (.connected 1 {} {}), .call (.sendData (some [0]) 1),
      .call .close, .loop (.closed 0)]

theorem handles_owned_iff_reconnectedClosed :
    Along (restrict WithoutShutdown step) Orderly {} reconnectedClosed ∧
      Throughout (restrict WithoutShutdown step) HandlesOwned {} reconnectedClosed := by
  have horderly : Along (restrict WithoutShutdown step) Orderly {} reconnectedClosed := by
    decide +kernel
  exact ⟨horderly, (handles_owned_iff (by decide +kernel)).mpr horderly⟩

end TcpClient

end TarmIo.Net.Tcp
