import TarmIo.Net.Udp.UdpClient

/-!
# Packets from other sources

Two things of a foreign packet can reach the user: the packet itself, when the test of
`on_data_received` takes it for one of the destination, and the last packet time that it
sets, when the timeout handler reads that time before another packet sets it. A run without
either is, to the user, the run in which the foreign packets never arrived, nor libuv's call
with nothing to read where a socket was readable for their sake only.

For IPv4 the test is exact. For IPv6 it compares ports and flow information and no address.
-/

namespace TarmIo.Net

open Foundation BacklogWithTimeout

/-! ## The test of the source -/

theorem Sockaddr.accepts_inet (expect source : SockaddrIn) :
    accepts (.inet expect) (.inet source) = true ↔ host (.inet expect) = host (.inet source) := by
  rw [accepts, sinAddr_inet, sinAddr_inet, sinPort_inet, sinPort_inet, Bool.and_eq_true_iff,
    beq_iff_eq, beq_iff_eq, host, host, Prod.mk.injEq, Prod.mk.injEq]
  constructor
  · rintro ⟨haddress, hport⟩
    exact ⟨rfl, haddress.symm, hport.symm⟩
  · rintro ⟨_, haddress, hport⟩
    exact ⟨haddress.symm, hport.symm⟩

theorem Sockaddr.accepts_inet6 (expect source : SockaddrIn6) :
    accepts (.inet6 expect) (.inet6 source) = true ↔
      source.flowInfo = expect.flowInfo ∧ source.port = expect.port := by
  rw [accepts, sinAddr_inet6, sinAddr_inet6, sinPort_inet6, sinPort_inet6]
  simp

namespace UdpClient

/-! ## The run without foreign packets -/

/-- A foreign packet, or the call with nothing to read after foreign packets alone. -/
def ForeignInput (c : UdpClient) : Input → Prop
  | .datagram source _ => c.handle.isOpen = true ∧ c.isForeign source = true
  | .nothingToRead => c.handle.isOpen = true ∧ c.wakeup = .foreignOnly
  | _ => False

instance (c : UdpClient) (i : Input) : Decidable (c.ForeignInput i) := by
  cases i <;> unfold ForeignInput <;> infer_instance

/-- A foreign input that does not take place: all that is left is what woke libuv. -/
def skip (c : UdpClient) : Input → UdpClient
  | .datagram source _ => { c with wakeup := c.wokenBy source }
  | .nothingToRead => { c with wakeup := .nothing }
  | _ => c

/-- A step of the run in which foreign packets never arrive. -/
def stepOwn (c : UdpClient) (i : Input) : Option UdpClient :=
  if c.ForeignInput i then some (c.skip i) else step c i

def observed (c : UdpClient) : List Received × List UInt64 × List UInt64 :=
  (c.received, c.timeouts, c.closeCalls)

/-- No foreign packet is taken for one of the destination, and no last packet time that one has
set is read. -/
def Unaffected (c : UdpClient) : Input → Prop
  | .datagram source data =>
      c.isForeign source = true → c.hasReceiveCallback = true → data ≠ [] →
        ¬ c.destination.any (·.accepts source) = true
  | .installTimeout _ _ => c.foreignStamp = false
  | .onTimer index =>
      c.foreignStamp = true → ∀ h ∈ c.timeoutHandler, bucket h.items index = []
  | _ => True

instance (c : UdpClient) (i : Input) : Decidable (c.Unaffected i) := by
  cases i <;> unfold Unaffected <;> infer_instance

/-- An IPv4 client takes no foreign packet for one of its destination. -/
theorem unaffected_inet {c : UdpClient} {expect : SockaddrIn}
    (hdestination : c.destination = some (.inet expect)) (source : SockaddrIn)
    (data : List UInt8) : c.Unaffected (.datagram (.inet source) data) := by
  intro hforeign _ _ haccepted
  rw [isForeign, hdestination, Option.any_some, bne_iff_ne] at hforeign
  rw [hdestination, Option.any_some] at haccepted
  exact hforeign ((Sockaddr.accepts_inet expect source).mp haccepted)

/-- An IPv6 client tells foreign packets by their port and flow information only. -/
theorem unaffected_inet6_iff {c : UdpClient} {expect source : SockaddrIn6}
    (hdestination : c.destination = some (.inet6 expect)) {data : List UInt8}
    (hforeign : c.isForeign (.inet6 source) = true) (hcallback : c.hasReceiveCallback = true)
    (hdata : data ≠ []) :
    c.Unaffected (.datagram (.inet6 source) data) ↔
      ¬ (source.flowInfo = expect.flowInfo ∧ source.port = expect.port) := by
  rw [← Sockaddr.accepts_inet6, Unaffected, hdestination, Option.any_some]
  exact ⟨fun h => h hforeign hcallback hdata, fun h _ _ _ => h⟩

/-! ## The two runs side by side -/

def withTime (c : UdpClient) (lastPacketTime : UInt64) (foreignStamp : Bool) : UdpClient :=
  { c with lastPacketTime, foreignStamp }

/-- The last packet times differ only where a foreign packet has set one. -/
def Alike (c d : UdpClient) : Prop :=
  ∃ time foreign, d = c.withTime time foreign ∧
    (c.foreignStamp = false → time = c.lastPacketTime)

theorem Alike.refl (c : UdpClient) : Alike c c :=
  ⟨c.lastPacketTime, c.foreignStamp, rfl, fun _ => rfl⟩

theorem Alike.observed_eq {c d : UdpClient} (h : Alike c d) : c.observed = d.observed := by
  obtain ⟨_, _, rfl, _⟩ := h
  rfl

structure Timeless (f : UdpClient → UdpClient) : Prop where
  commutes : ∀ c time foreign, f (c.withTime time foreign) = (f c).withTime time foreign
  lastPacketTime : ∀ c, (f c).lastPacketTime = c.lastPacketTime
  foreignStamp : ∀ c, (f c).foreignStamp = c.foreignStamp

theorem Alike.timeless {f : UdpClient → UdpClient} (hf : Timeless f) {c d : UdpClient}
    (h : Alike c d) : Alike (f c) (f d) := by
  obtain ⟨time, foreign, rfl, htime⟩ := h
  refine ⟨time, foreign, hf.commutes c time foreign, ?_⟩
  rw [hf.foreignStamp, hf.lastPacketTime]
  exact htime

theorem Timeless.comp {f g : UdpClient → UdpClient} (hf : Timeless f) (hg : Timeless g) :
    Timeless (f ∘ g) where
  commutes c time foreign := by
    rw [Function.comp, Function.comp, hg.commutes, hf.commutes]
  lastPacketTime c := (hf.lastPacketTime (g c)).trans (hg.lastPacketTime c)
  foreignStamp c := (hf.foreignStamp (g c)).trans (hg.foreignStamp c)

theorem timeless_closeImpl : Timeless closeImpl where
  commutes c time foreign := by
    unfold closeImpl withTime
    split <;> rfl
  lastPacketTime c := by
    unfold closeImpl
    split <;> rfl
  foreignStamp c := by
    unfold closeImpl
    split <;> rfl

theorem timeless_onItemExpired : Timeless onItemExpired where
  commutes c time foreign := by
    rw [onItemExpired, timeless_closeImpl.commutes]
    rfl
  lastPacketTime := timeless_closeImpl.lastPacketTime
  foreignStamp := timeless_closeImpl.foreignStamp

theorem Timeless.expire {f : UdpClient → UdpClient} (hf : Timeless f)
    (reports : List (TarmIo.Report Unit)) :
    Timeless (fun c => reports.foldl (fun c _ => c.onItemExpired) (f c)) := by
  induction reports generalizing f with
  | nil => exact hf
  | cons r reports ih => exact ih (timeless_onItemExpired.comp hf)

theorem timeless_afterBacklog (b : BacklogWithTimeout Unit) :
    Timeless (fun c => c.afterBacklog b) :=
  Timeless.expire (f := fun c => { c with timeoutHandler := some (.ofBacklog b) })
    ⟨fun _ _ _ => rfl, fun _ => rfl, fun _ => rfl⟩ b.reported

theorem timeless_setDestinationImpl (endpoint : Option Sockaddr) (hasReceiveCallback : Bool)
    (uv : UvUdp) : Timeless (fun c => (setDestinationImpl endpoint hasReceiveCallback uv c).2) := by
  constructor
  · intro c time foreign
    unfold setDestinationImpl setupUdpHandle withTime
    dsimp only
    repeat' split
    all_goals rfl
  · intro c
    unfold setDestinationImpl setupUdpHandle
    dsimp only
    repeat' split
    all_goals rfl
  · intro c
    unfold setDestinationImpl setupUdpHandle
    dsimp only
    repeat' split
    all_goals rfl

theorem timeless_onCloseNoRemoval : Timeless onCloseNoRemoval :=
  ⟨fun _ _ _ => rfl, fun _ => rfl, fun _ => rfl⟩

variable {c c' d : UdpClient}

theorem Alike.isOpen_eq (h : Alike c d) : d.handle.isOpen = c.handle.isOpen := by
  obtain ⟨_, _, rfl, _⟩ := h
  rfl

/-- A call of the receive callback sets the last packet time in both runs. -/
theorem Alike.onDataReceived_eq (h : Alike c d) (nread : Except Error (List UInt8))
    (addr : Option Sockaddr) : d.onDataReceived nread addr = c.onDataReceived nread addr := by
  obtain ⟨_, _, rfl, _⟩ := h
  rfl

theorem Alike.isForeign_eq (h : Alike c d) (source : Sockaddr) :
    d.isForeign source = c.isForeign source := by
  obtain ⟨_, _, rfl, _⟩ := h
  rfl

theorem Alike.wokenBy_eq (h : Alike c d) (source : Sockaddr) :
    d.wokenBy source = c.wokenBy source := by
  obtain ⟨_, _, rfl, _⟩ := h
  rfl

theorem Alike.wakeup_eq (h : Alike c d) : d.wakeup = c.wakeup := by
  obtain ⟨_, _, rfl, _⟩ := h
  rfl

/-- What libuv was woken by is the same in both runs, also where one run skips the call. -/
theorem Alike.skip (h : Alike c d) (wakeup : Wakeup) :
    Alike { c.stamp with foreignStamp := true, wakeup } { d with wakeup } := by
  obtain ⟨time, foreign, rfl, _⟩ := h
  exact ⟨time, foreign, rfl, nofun⟩

/-- A foreign packet that is not delivered sets the last packet time and nothing else. -/
theorem onDataReceived_foreign {source : Sockaddr} {data : List UInt8}
    (hforeign : c.isForeign source = true) (hgood : c.Unaffected (.datagram source data)) :
    c.onDataReceived (.ok data) (some source) = c.stamp := by
  rw [onDataReceived]
  cases hcallback : c.hasReceiveCallback with
  | false => simp [stamp, hcallback]
  | true =>
      have hnot : ¬ (data ≠ [] ∧ c.destination.any (·.accepts source) = true) :=
        fun hboth => hgood hforeign hcallback hboth.1 hboth.2
      simp only [stamp, hcallback, Bool.not_true, Bool.false_eq_true, if_false, if_neg hnot]

theorem onDataReceived_nothing (c : UdpClient) : c.onDataReceived (.ok []) none = c.stamp := by
  rw [onDataReceived]
  exact ite_self _

theorem Alike.installTimeout (h : Alike c d) (hown : c.foreignStamp = false) (timeoutMs : UInt64)
    (hasCloseCallback : Bool) :
    Alike (c.installTimeout timeoutMs hasCloseCallback)
      (d.installTimeout timeoutMs hasCloseCallback) := by
  obtain ⟨time, foreign, rfl, htime⟩ := h
  rw [htime hown]
  refine Alike.timeless (timeless_afterBacklog _) ⟨c.lastPacketTime, foreign, rfl, fun _ => rfl⟩

theorem onTimer_some {h : TimeoutHandler} (hhandler : c.timeoutHandler = some h) (index : Nat) :
    c.onTimer index =
      match BacklogWithTimeout.onTimer ignoring ((bucket h.items index).length + 1) index
          (h.backlog c.clock c.lastPacketTime) with
      | none => c
      | some b => c.afterBacklog b := by
  cases hb : BacklogWithTimeout.onTimer ignoring ((bucket h.items index).length + 1) index
    (h.backlog c.clock c.lastPacketTime) with
  | none => simp [UdpClient.onTimer, hhandler, hb]
  | some b => simp [UdpClient.onTimer, hhandler, hb]

/-- Nothing is read for an empty bucket. -/
theorem onTimer_of_empty {h : TimeoutHandler} {index : Nat} (hempty : bucket h.items index = [])
    (clock time : UInt64) :
    BacklogWithTimeout.onTimer ignoring ((bucket h.items index).length + 1) index
        (h.backlog clock time) =
      some { h.backlog clock time with items := h.items.set index [] } := by
  rw [BacklogWithTimeout.onTimer, onTimerLoop, TimeoutHandler.backlog, hempty]
  rfl

theorem Alike.onTimer (h : Alike c d) {index : Nat} (hgood : c.Unaffected (.onTimer index)) :
    Alike (c.onTimer index) (d.onTimer index) := by
  have halike := h
  obtain ⟨time, foreign, rfl, htime⟩ := h
  cases hhandler : c.timeoutHandler with
  | none =>
      have hnone : ∀ {c : UdpClient}, c.timeoutHandler = none → c.onTimer index = c := by
        intro c hc
        rw [UdpClient.onTimer, hc]
      rw [hnone hhandler, hnone (c := c.withTime time foreign) hhandler]
      exact halike
  | some handler =>
      rw [onTimer_some hhandler, onTimer_some (c := c.withTime time foreign) hhandler]
      cases hstamp : c.foreignStamp with
      | false =>
          rw [htime hstamp] at halike ⊢
          change Alike _ (match BacklogWithTimeout.onTimer ignoring
            ((bucket handler.items index).length + 1) index
            (handler.backlog c.clock c.lastPacketTime) with
            | none => _
            | some b => _)
          split
          next => exact halike
          next b _ => exact halike.timeless (timeless_afterBacklog b)
      | true =>
          have hempty := hgood hstamp handler hhandler
          rw [onTimer_of_empty hempty, onTimer_of_empty hempty]
          exact ⟨time, foreign, rfl, htime⟩

theorem Alike.sendData (h : Alike c d) (size : Nat) :
    Alike (c.sendData size) (d.sendData size) := by
  have halike := h
  obtain ⟨time, foreign, rfl, htime⟩ := h
  unfold UdpClient.sendData
  change Alike _ (if size = 0 || !c.handle.isOpen || c.destination.isNone then _ else c.stamp)
  split
  next => exact halike
  next => exact Alike.refl _

/-- A call that leads to the same state from both sides is made in both runs, or in neither. -/
theorem Alike.called (h : Alike c d) {f : UdpClient → UdpClient} (hf : f d = f c)
    (hstep : (if c.handle.isOpen then some (f c) else some c) = some c') :
    ∃ d', (if d.handle.isOpen then some (f d) else some d) = some d' ∧ Alike c' d' := by
  rw [h.isOpen_eq, hf]
  split at hstep
  next hopen =>
      rw [if_pos hopen, hstep]
      exact ⟨c', rfl, Alike.refl c'⟩
  next hclosed =>
      cases hstep
      exact ⟨d, if_neg hclosed, h⟩

theorem step_alike_own {i : Input} (h : Alike c d) (hgood : c.Unaffected i)
    (hstep : step c i = some c') : ∃ d', step d i = some d' ∧ Alike c' d' := by
  have hhandle : d.handle = c.handle := by
    obtain ⟨_, _, rfl, _⟩ := h
    rfl
  have hclock : d.clock = c.clock := by
    obtain ⟨_, _, rfl, _⟩ := h
    rfl
  cases i with
  | wakeup =>
      cases hstep
      exact ⟨_, rfl, h.timeless (f := fun c => { c with wakeup := .nothing })
        ⟨fun _ _ _ => rfl, fun _ => rfl, fun _ => rfl⟩⟩
  | datagram source data =>
      refine h.called (f := fun c => { c.onDataReceived (.ok data) (some source) with
        foreignStamp := c.isForeign source, wakeup := c.wokenBy source }) ?_ hstep
      rw [h.onDataReceived_eq, h.isForeign_eq, h.wokenBy_eq]
  | nothingToRead =>
      refine h.called (f := fun c => { c.onDataReceived (.ok []) none with
        foreignStamp := c.wakeup = .foreignOnly, wakeup := .nothing }) ?_ hstep
      rw [h.onDataReceived_eq, h.wakeup_eq]
  | readError error =>
      refine h.called (f := fun c => { c.onDataReceived (.error error) none with
        wakeup := .nothing }) ?_ hstep
      rw [h.onDataReceived_eq]
  | setDestination endpoint hasReceiveCallback uv =>
      cases hstep
      exact ⟨_, rfl, h.timeless (timeless_setDestinationImpl endpoint hasReceiveCallback uv)⟩
  | installTimeout timeoutMs hasCloseCallback =>
      cases hstep
      exact ⟨_, rfl, h.installTimeout hgood timeoutMs hasCloseCallback⟩
  | onTimer index =>
      cases hstep
      exact ⟨_, rfl, h.onTimer hgood⟩
  | sendData size =>
      cases hstep
      exact ⟨_, rfl, h.sendData size⟩
  | close =>
      cases hstep
      exact ⟨_, rfl, h.timeless timeless_closeImpl⟩
  | closingPhase =>
      rw [step] at hstep ⊢
      rw [hhandle]
      split at hstep
      next hclosing =>
          cases hstep
          exact ⟨_, if_pos hclosing, h.timeless timeless_onCloseNoRemoval⟩
      next hopen =>
          cases hstep
          exact ⟨d, if_neg hopen, h⟩
  | advance clock =>
      rw [step] at hstep ⊢
      rw [hclock]
      split at hstep
      next hlater =>
          cases hstep
          refine ⟨_, if_pos hlater, ?_⟩
          exact h.timeless (f := fun c => { c with clock })
            ⟨fun _ _ _ => rfl, fun _ => rfl, fun _ => rfl⟩
      next => cases hstep

theorem step_alike {i : Input} (h : Alike c d) (hgood : c.Unaffected i)
    (hstep : step c i = some c') : ∃ d', stepOwn d i = some d' ∧ Alike c' d' := by
  by_cases hforeign : d.ForeignInput i
  · rw [stepOwn, if_pos hforeign]
    refine ⟨d.skip i, rfl, ?_⟩
    cases i with
    | datagram source data =>
        obtain ⟨hopen, hsource⟩ := hforeign
        rw [h.isOpen_eq] at hopen
        rw [h.isForeign_eq] at hsource
        rw [step, if_pos hopen, onDataReceived_foreign hsource hgood, hsource] at hstep
        cases hstep
        rw [UdpClient.skip, h.wokenBy_eq]
        exact h.skip _
    | nothingToRead =>
        obtain ⟨hopen, hwoken⟩ := hforeign
        rw [h.isOpen_eq] at hopen
        rw [h.wakeup_eq] at hwoken
        rw [step, if_pos hopen, onDataReceived_nothing, hwoken] at hstep
        cases hstep
        exact h.skip _
    | _ => exact hforeign.elim
  · rw [stepOwn, if_neg hforeign]
    exact step_alike_own h hgood hstep

/-! ## Every run -/

/-- The user cannot tell a run from the one in which its foreign packets never arrived. -/
theorem foreign_packets_unseen (c : UdpClient) (es : List Input) (c' : UdpClient)
    (hgood : Along step Unaffected c es) (hrun : exec step c es = some c') :
    ∃ d, exec stepOwn c es = some d ∧ d.observed = c'.observed := by
  obtain ⟨d, hown, halike⟩ :=
    exec_simulates (fun _ _ _ _ => step_alike) (Alike.refl c) hgood hrun
  exact ⟨d, hown, halike.observed_eq.symm⟩

/-! ### Two runs that differ -/

def loopback (port : UInt8) : Sockaddr :=
  .inet ⟨#v[0, port], #v[127, 0, 0, 1]⟩

def inet6Host (last : UInt8) : Sockaddr :=
  .inet6 ⟨#v[0, 80], #v[0, 0, 0, 0], #v[32, 1, 0, 0, 0, 0, 0, 0, 0, 0, 0, 0, 0, 0, 0, last],
    #v[0, 0, 0, 0]⟩

def refreshed : List Input :=
  [.setDestination (some (loopback 80)) true {}, .installTimeout 4 true, .advance 3000000,
    .wakeup, .datagram (loopback 81) [1], .nothingToRead, .advance 4000000, .onTimer 0,
    .closingPhase]

def impersonated : List Input :=
  [.setDestination (some (inet6Host 1)) true {}, .wakeup, .datagram (inet6Host 2) [1],
    .nothingToRead]

/-- Without the packet the client of the first run is closed by its timeout, and the data callback
of the second one is not called. -/
theorem foreign_packet_seen :
    ((exec step (create 0) refreshed).map observed = some ([], [], []) ∧
      (exec stepOwn (create 0) refreshed).map observed = some ([], [4000000], [4000000])) ∧
    (exec step (create 0) impersonated).map observed = some ([⟨[1], {}, 0⟩], [], []) ∧
      (exec stepOwn (create 0) impersonated).map observed = some ([], [], []) := by
  decide +kernel

/-- The packet of another port comes after the timeout was set, and a packet of the destination
after it. -/
def overwritten : List Input :=
  [.setDestination (some (loopback 80)) true {}, .installTimeout 4 true, .advance 1000000,
    .wakeup, .datagram (loopback 81) [1], .nothingToRead, .wakeup, .datagram (loopback 80) [2],
    .nothingToRead, .advance 5000000, .onTimer 0, .closingPhase]

theorem foreign_packets_unseen_overwritten :
    ∃ c', exec step (create 0) overwritten = some c' ∧
      c'.observed = ([⟨[2], {}, 1000000⟩], [5000000], [5000000]) ∧
      ∃ d, exec stepOwn (create 0) overwritten = some d ∧ d.observed = c'.observed := by
  have hend : ∃ c' ∈ exec step (create 0) overwritten,
      c'.observed = ([⟨[2], {}, 1000000⟩], [5000000], [5000000]) := by
    decide +kernel
  obtain ⟨c', hrun, hseen⟩ := hend
  exact ⟨c', hrun, hseen, foreign_packets_unseen (create 0) overwritten c' (by decide +kernel) hrun⟩

end UdpClient

end TarmIo.Net
