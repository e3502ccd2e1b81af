import TarmIo.Net.Tcp.ConnectionEnd

/-!
# The TLS client of an accepted connection

`TlsServer.cpp` makes a `TlsConnectedClient` for each TCP client and deletes it in the close
callback of the TCP client. After an error of a read this callback comes before `uv_close`, so that
sends can be in flight, and their callbacks hold a pointer to the TLS client.

The user and OpenSSL send and call `close` and `shutdown` in any order, and `on_handshake_failed`
is one of these calls of `close`. libuv completes all writes before it reports a stream closed.
-/

namespace TarmIo.Net.Tls

open Foundation Tcp Tcp.ServedConnection

/-- A TCP client whose `user_data` is a TLS client, or null. A send in flight is known by whether
its callback will use the TLS client: that of a handshake send does for an error, that of the last
one always, others if the user gave a callback. Deletions and uses of a deleted client are counted,
and `lost` are the sends in flight at a deletion. -/
structure ServedClient where
  tcp : ServedConnection
  initFailed : Bool
  userData : Bool := true
  deletions : Nat := 0
  sends : List Bool := []
  lost : List Bool := []
  dangling : Nat := 0
deriving DecidableEq

namespace ServedClient

inductive Event
  | tcp (event : ServedConnection.Event)
  | leave
  | send (uses : Bool)
  | sent
deriving DecidableEq

/-- `on_new_connection`, where `init_ssl` fails or not. -/
def start (initFailed : Bool) : ServedClient :=
  { tcp := ServedConnection.start true true, initFailed }

def use (c : ServedClient) : ServedClient :=
  if c.deletions = 0 then c else { c with dangling := c.dangling + 1 }

def delete (c : ServedClient) : ServedClient :=
  { c.use with deletions := c.deletions + 1, lost := c.lost ++ c.sends }

/-- `on_data_receive`, and `on_connection_close` up to the user's callback. -/
def enter (c : ServedClient) : ServedClient :=
  match c.tcp.running with
  | none | some .accepted => c
  | some (.received _) => c.use
  | some .readFailed | some .closed => if c.userData then c.use else c

/-- The TCP client goes on, and one of its callbacks may begin. -/
def withTcp (c : ServedClient) (tcp : ServedConnection) : ServedClient :=
  if tcp.running = c.tcp.running then { c with tcp } else { c with tcp }.enter

/-- The TCP client at the end of `on_new_connection`, after the user's callback for an error. -/
def closing (c : ServedClient) (frame : ServedConnection.Frame) : ServedConnection :=
  if c.initFailed = true ∧ frame = .accepted then c.tcp.update TcpConnectedClient.close else c.tcp

def finish (c : ServedClient) (frame : ServedConnection.Frame) (tcp : ServedConnection) :
    ServedClient :=
  match frame with
  | .accepted => if c.initFailed then { c.delete with tcp, userData := false } else { c with tcp }
  | .received _ => { c with tcp }
  | .readFailed | .closed => if c.userData then { c.delete with tcp } else { c with tcp }

def step (c : ServedClient) : Event → Option ServedClient
  | .tcp (.leave _) => none
  | .tcp event =>
      if event = .closed ∧ c.sends ≠ [] then none
      else (c.tcp.step event).map c.withTcp
  | .leave =>
      c.tcp.running.bind fun frame =>
        ((c.closing frame).step (.leave true)).map (c.finish frame)
  | .send uses =>
      if c.deletions = 0 ∧ c.tcp.client.isOpen = true then
        some { c with sends := c.sends ++ [uses] }
      else none
  | .sent =>
      match c.tcp.running, c.sends with
      | none, uses :: sends => some (if uses then { c with sends }.use else { c with sends })
      | _, _ => none

/-! ## Before and after the deletion -/

/-- After the deletion nothing is read, the close callback of the TCP client does not come again,
and the uses still to come are those by sends that were in flight. -/
structure Sound (c : ServedClient) : Prop where
  ordered : c.tcp.Ordered
  alive : c.deletions = 0 → c.userData = true ∧ c.lost = [] ∧ c.dangling = 0 ∧
    c.tcp.client.closeCallback = true ∧ (c.tcp.client.closed = true → c.tcp.running = some .closed)
  deleted : c.deletions ≠ 0 → c.deletions = 1 ∧ c.tcp.client.reading = false ∧
    c.tcp.running ≠ some .accepted ∧ (c.userData = true → c.tcp.running ≠ some .readFailed ∧
      c.tcp.running ≠ some .closed ∧
      (c.tcp.client.closeCallback = false ∨ c.tcp.client.closed = true))
  uses : c.deletions ≠ 0 → c.dangling + c.sends.count true = c.lost.count true
  closed : c.tcp.client.closed = true → c.sends = []

variable {c d : ServedClient} {e : Event} {tcp : ServedConnection}

theorem Sound.moves (h : c.Sound) {f : TcpConnectedClient → TcpConnectedClient}
    (hf : MovesOn c.tcp.client (f c.tcp.client)) :
    (c.withTcp (c.tcp.update f)).Sound := by
  have ho := h.ordered.update hf
  obtain ⟨-, ha, hd, hu, hs⟩ := h
  obtain ⟨hcallback, hclosed, -, -, hreading⟩ := hf
  constructor <;> grind [withTcp, update]

/-- Data and errors are for a client that is there. So is the close callback, unless the pointer to
the client or to the callback was cleared at the deletion. -/
theorem Sound.onTcp (h : c.Sound) {event : ServedConnection.Event}
    (hevent : ∀ receiveCallback, event ≠ .leave receiveCallback)
    (hsends : event = .closed → c.sends = []) (hstep : c.tcp.step event = some tcp) :
    (c.withTcp tcp).Sound := by
  have ho := step_ordered h.ordered hstep
  obtain ⟨hordered, ha, hd, hu, hs⟩ := id h
  have hstage := hordered.stage
  have hreading := hordered.reading
  cases event with
  | leave receiveCallback => exact absurd rfl (hevent receiveCallback)
  | close =>
      cases hstep
      exact h.moves (movesOn_close _)
  | shutdown =>
      cases hstep
      exact h.moves (movesOn_shutdown _)
  | closeWithReset =>
      cases hstep
      exact h.moves (f := (·.closeWithReset true)) (movesOn_closeWithReset _)
  | data size =>
      obtain ⟨⟨-, htrue⟩, rfl⟩ := by simpa [ServedConnection.step] using hstep
      constructor <;> grind [withTcp, enter, use, onData, advance]
  | failure error socketError =>
      obtain ⟨⟨-, htrue, -⟩, rfl⟩ := by simpa [ServedConnection.step] using hstep
      constructor <;> grind [withTcp, enter, use, onFailure, update]
  | shutdownDone =>
      obtain ⟨⟨-, hpending⟩, rfl⟩ := by simpa [ServedConnection.step] using hstep
      exact h.moves (movesOn_onShutdown hpending)
  | closed =>
      obtain ⟨⟨-, hpending, -⟩, rfl⟩ := by simpa [ServedConnection.step] using hstep
      constructor <;> grind [withTcp, enter, use, onClose, update]

theorem closing_running (frame : ServedConnection.Frame) :
    (c.closing frame).running = c.tcp.running := by
  unfold closing
  split <;> rfl

theorem Sound.leave (h : c.Sound) {frame : ServedConnection.Frame}
    (hrunning : c.tcp.running = some frame) :
    (c.finish frame ({ c.closing frame with running := none }.resume true frame)).Sound := by
  have hordered : (c.closing frame).Ordered := by
    unfold closing
    split
    · exact h.ordered.update (movesOn_close _)
    · exact h.ordered
  have ho := hordered.leave ((closing_running frame).trans hrunning) true
  obtain ⟨⟨-, -, -, -, hreading, haccepted, hfailed, hclosed⟩, ha, hd, hu, hs⟩ := h
  cases frame with
  | accepted =>
      constructor <;> grind [finish, closing, delete, use, resume, finishAccept, startRead, update,
        TcpConnectedClient.close, TcpConnectedClient.uvClose]
  | received size =>
      constructor <;> grind [finish, closing, resume, advance]
  | readFailed =>
      constructor <;> grind [finish, closing, delete, use, resume, finishReadError, update,
        TcpConnectedClient.close, TcpConnectedClient.uvClose]
  | closed => constructor <;> grind [finish, closing, delete, use, resume]

theorem step_sound (h : c.Sound) (hstep : c.step e = some d) : d.Sound := by
  cases e with
  | tcp event =>
      have hevent : ∀ receiveCallback, event ≠ .leave receiveCallback := by
        rintro receiveCallback rfl
        cases hstep
      rw [step] at hstep
      · split at hstep
        · cases hstep
        · rename_i hsends
          obtain ⟨tcp, htcp, rfl⟩ := Option.map_eq_some_iff.mp hstep
          exact h.onTcp hevent (by grind) htcp
      · exact fun r hr => hevent r hr
  | leave =>
      obtain ⟨frame, hrunning, hleft⟩ := Option.bind_eq_some_iff.mp hstep
      obtain ⟨tcp, htcp, rfl⟩ := Option.map_eq_some_iff.mp hleft
      rw [ServedConnection.step, closing_running, hrunning] at htcp
      cases htcp
      exact h.leave hrunning
  | send uses =>
      have hstage := h.ordered.stage
      obtain ⟨ho, ha, hd, hu, hs⟩ := h
      constructor <;> grind [step]
  | sent =>
      obtain ⟨ho, ha, hd, hu, hs⟩ := h
      constructor <;> grind [step, use]

theorem start_sound (initFailed : Bool) : (start initFailed).Sound where
  ordered := start_ordered true true
  alive _ := by cases initFailed <;> decide
  deleted h := absurd rfl h
  uses h := absurd rfl h
  closed _ := rfl

/-- A TLS client is deleted once, by the time its connection is closed, and the uses after the
deletion are by callbacks of the sends that were in flight then. -/
theorem deleted_once {initFailed : Bool} {run : List Event}
    (h : exec step (start initFailed) run = some c) :
    c.deletions ≤ 1 ∧ c.dangling ≤ c.lost.count true ∧
      (c.tcp.client.closed = true → c.tcp.running ≠ some .closed →
        c.deletions = 1 ∧ c.dangling = c.lost.count true) := by
  have hsound : c.Sound :=
    exec_invariant (fun _ _ _ hc hstep => step_sound hc hstep) (start_sound _) h
  obtain ⟨-, ha, hd, hu, hs⟩ := hsound
  grind

/-- The peer closes the connection before the answer to its first handshake message is sent. -/
def hangsUp : List Event :=
  [.leave, .tcp (.data 5), .send true, .leave, .tcp (.failure (.ofCode .endOfFile) {}), .leave,
    .sent, .tcp .closed]

theorem deleted_once_hangsUp :
    ∃ c, exec step (start false) hangsUp = some c ∧ c.lost = [true] ∧
      c.deletions = 1 ∧ c.dangling = 1 := by
  have hend : ∃ c ∈ exec step (start false) hangsUp,
      c.tcp.client.closed = true ∧ c.tcp.running ≠ some .closed ∧ c.lost = [true] := by
    decide +kernel
  obtain ⟨c, hrun, hclosed, hover, hlost⟩ := hend
  obtain ⟨-, -, hends⟩ := deleted_once hrun
  obtain ⟨honce, huses⟩ := hends hclosed hover
  exact ⟨c, hrun, hlost, honce, huses.trans (by rw [hlost]; rfl)⟩

end ServedClient

end TarmIo.Net.Tls
