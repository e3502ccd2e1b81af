import TarmIo.Backlog.Reentrancy
import TarmIo.Net.Udp.UdpImplBase

/-!
# `UdpClient.cpp`

The client with its destination, its inactivity timeout, and what the user sees of it: the
calls of the data callback, the inactivity timeouts and the calls of the close callback,
each with its time. Addresses are the bytes that libuv passes, read at the offsets of
`sockaddr_in`.
-/

namespace TarmIo.Net

open Foundation BacklogWithTimeout

/-! ## Socket addresses -/

/-- The bytes of `sin_port` and `sin_addr`. -/
structure SockaddrIn where
  port : Vector UInt8 2
  address : Vector UInt8 4
deriving DecidableEq

structure SockaddrIn6 where
  port : Vector UInt8 2
  flowInfo : Vector UInt8 4
  address : Vector UInt8 16
  scopeId : Vector UInt8 4
deriving DecidableEq

inductive Sockaddr
  | inet (a : SockaddrIn)
  | inet6 (a : SockaddrIn6)
deriving DecidableEq

namespace Sockaddr

/-- The memory layout: the family, then the fields in their order. -/
def bytes : Sockaddr → List UInt8
  | .inet a => [2, 0] ++ (a.port.toList ++ (a.address.toList ++ List.replicate 8 0))
  | .inet6 a =>
      [10, 0] ++ (a.port.toList ++ (a.flowInfo.toList ++ (a.address.toList ++ a.scopeId.toList)))

def isInet6 : Sockaddr → Bool
  | .inet _ => false
  | .inet6 _ => true

def host : Sockaddr → Bool × List UInt8 × List UInt8
  | .inet a => (false, a.address.toList, a.port.toList)
  | .inet6 a => (true, a.address.toList, a.port.toList)

/-- `sin_port` of a `sockaddr_in` at this memory. -/
def sinPort (a : Sockaddr) : List UInt8 :=
  (a.bytes.drop 2).take 2

/-- `sin_addr.s_addr` of a `sockaddr_in` at this memory. -/
def sinAddr (a : Sockaddr) : List UInt8 :=
  (a.bytes.drop 4).take 4

/-- The test of `on_data_received`. -/
def accepts (expect source : Sockaddr) : Bool :=
  source.sinAddr == expect.sinAddr && source.sinPort == expect.sinPort

theorem sinPort_inet (a : SockaddrIn) : sinPort (.inet a) = a.port.toList :=
  List.take_left' a.port.length_toList

theorem sinPort_inet6 (a : SockaddrIn6) : sinPort (.inet6 a) = a.port.toList :=
  List.take_left' a.port.length_toList

theorem bytes_inet_drop (a : SockaddrIn) :
    (bytes (.inet a)).drop 4 = a.address.toList ++ List.replicate 8 0 := by
  change ((a.port.toList ++ _).drop 2) = _
  exact List.drop_left' a.port.length_toList

theorem bytes_inet6_drop (a : SockaddrIn6) :
    (bytes (.inet6 a)).drop 4 = a.flowInfo.toList ++ (a.address.toList ++ a.scopeId.toList) := by
  change ((a.port.toList ++ _).drop 2) = _
  exact List.drop_left' a.port.length_toList

theorem sinAddr_inet (a : SockaddrIn) : sinAddr (.inet a) = a.address.toList := by
  rw [sinAddr, bytes_inet_drop]
  exact List.take_left' a.address.length_toList

/-- Where a `sockaddr_in` has the address, a `sockaddr_in6` has the flow information. -/
theorem sinAddr_inet6 (a : SockaddrIn6) : sinAddr (.inet6 a) = a.flowInfo.toList := by
  rw [sinAddr, bytes_inet6_drop]
  exact List.take_left' a.flowInfo.length_toList

end Sockaddr

/-! ## The client -/

/-- The members of the backlog of one item that tracks the inactivity timeout. Its getters give
the clock and the client's last packet time. -/
structure TimeoutHandler where
  entityTimeout : UInt64
  timers : List UInt64
  items : List (List Unit)
deriving DecidableEq

namespace TimeoutHandler

def backlog (h : TimeoutHandler) (clock lastPacketTime : UInt64) : BacklogWithTimeout Unit where
  entityTimeout := h.entityTimeout
  timers := h.timers
  items := h.items
  clock := clock
  itemTime := fun _ => lastPacketTime

def ofBacklog (b : BacklogWithTimeout Unit) : TimeoutHandler where
  entityTimeout := b.entityTimeout
  timers := b.timers
  items := b.items

end TimeoutHandler

structure Received where
  data : List UInt8
  error : Error
  time : UInt64
deriving DecidableEq

/-- What libuv has passed on since it began to read the socket. -/
inductive Wakeup
  | nothing
  | foreignOnly
  | own
deriving DecidableEq

/-- `foreignStamp` says that the last packet time was set because of packets from sources other
than the destination. It and `wakeup` are kept by `step` and read by no function. -/
structure UdpClient where
  handle : UdpHandle := {}
  destination : Option Sockaddr := none
  hasReceiveCallback : Bool := false
  hasCloseCallback : Bool := false
  timeoutHandler : Option TimeoutHandler := none
  clock : UInt64 := 0
  lastPacketTime : UInt64 := 0
  foreignStamp : Bool := false
  wakeup : Wakeup := .nothing
  received : List Received := []
  timeouts : List UInt64 := []
  closeCalls : List UInt64 := []
deriving DecidableEq

namespace UdpClient

def create (now : UInt64) : UdpClient :=
  { clock := now, lastPacketTime := now }

def stamp (c : UdpClient) : UdpClient :=
  { c with lastPacketTime := c.clock, foreignStamp := false }

/-! ### Destination and timeout -/

def setupUdpHandle (endpoint : Option Sockaddr) (uv : UvUdp) (c : UdpClient) :
    Error × UdpClient :=
  match c.handle.ensureInited uv with
  | (error, handle) =>
      if error.isError then (error, { c with handle })
      else
        match endpoint with
        | none => (.ofCode .invalidArgument, { c with handle })
        | some address =>
            if !handle.bound then
              match handle.bind uv with
              | (error, handle) =>
                  if error.isError then (error, { c with handle })
                  else ({}, { c with handle, destination := some address })
            else if c.destination.any (·.isInet6 != address.isInet6) then
              (.ofCode .invalidArgument, { c with handle })
            else ({}, { c with handle, destination := some address })

def setDestinationImpl (endpoint : Option Sockaddr) (hasReceiveCallback : Bool) (uv : UvUdp)
    (c : UdpClient) : Error × UdpClient :=
  match setupUdpHandle endpoint uv c with
  | (error, c) =>
      if error.isError then (error, c)
      else if uv.recvStart.isError then (uv.recvStart, c)
      else ({}, { c with hasReceiveCallback })

def closeImpl (c : UdpClient) : UdpClient :=
  if c.handle.isOpen then { c with handle := c.handle.close } else c

def onItemExpired (c : UdpClient) : UdpClient :=
  { c.closeImpl with timeouts := c.timeouts ++ [c.clock] }

/-- The timeout handler after a call, and what its expired callback did. -/
def afterBacklog (c : UdpClient) (b : BacklogWithTimeout Unit) : UdpClient :=
  b.reported.foldl (fun c _ => c.onItemExpired)
    { c with timeoutHandler := some (.ofBacklog b) }

/-- The end of `set_destination` with a timeout, after the destination callback. -/
def installTimeout (timeoutMs : UInt64) (hasCloseCallback : Bool) (c : UdpClient) : UdpClient :=
  { c with hasCloseCallback }.afterBacklog
    (addItem ignoring (BacklogWithTimeout.create timeoutMs c.clock fun _ => c.lastPacketTime) ()).2

def onTimer (index : Nat) (c : UdpClient) : UdpClient :=
  match c.timeoutHandler with
  | none => c
  | some h =>
      match BacklogWithTimeout.onTimer ignoring ((bucket h.items index).length + 1) index
          (h.backlog c.clock c.lastPacketTime) with
      | none => c
      | some b => c.afterBacklog b

/-! ### Packets -/

def isForeign (c : UdpClient) (source : Sockaddr) : Bool :=
  c.destination.any (·.host != source.host)

def deliver (c : UdpClient) (data : List UInt8) (error : Error) : UdpClient :=
  { c with received := c.received ++ [{ data, error, time := c.clock }] }

/-- `nread` is an error or the bytes that were read. -/
def onDataReceived (c : UdpClient) (nread : Except Error (List UInt8)) (addr : Option Sockaddr) :
    UdpClient :=
  let c := c.stamp
  if !c.hasReceiveCallback then c
  else
    match nread, addr with
    | .error error, _ => c.deliver [] error
    | .ok _, none => c
    | .ok data, some source =>
        if data ≠ [] ∧ c.destination.any (·.accepts source) then c.deliver data {} else c

/-- `send_data`, as far as it concerns the client's own state. -/
def sendData (size : Nat) (c : UdpClient) : UdpClient :=
  if size = 0 || !c.handle.isOpen || c.destination.isNone then c else c.stamp

def onCloseNoRemoval (c : UdpClient) : UdpClient :=
  { c with
    handle := c.handle.resetState
    closeCalls := if c.hasCloseCallback then c.closeCalls ++ [c.clock] else c.closeCalls }

/-! ### Runs -/

/-- When its socket is readable (`wakeup`), libuv passes on one datagram after another, and last
that there is `nothingToRead`, or a `readError`; a socket closed in between or a limit of libuv
can end this earlier. `closingPhase` is the part of a loop iteration in which completions of
`uv_close` are called. The two halves of `set_destination` are two inputs since the user's
destination callback runs in between. -/
inductive Input
  | wakeup
  | datagram (source : Sockaddr) (data : List UInt8)
  | nothingToRead
  | readError (error : Error)
  | setDestination (endpoint : Option Sockaddr) (hasReceiveCallback : Bool) (uv : UvUdp)
  | installTimeout (timeoutMs : UInt64) (hasCloseCallback : Bool)
  | onTimer (index : Nat)
  | sendData (size : Nat)
  | close
  | closingPhase
  | advance (clock : UInt64)

def wokenBy (c : UdpClient) (source : Sockaddr) : Wakeup :=
  if c.isForeign source = false then .own
  else if c.wakeup = .own then .own
  else .foreignOnly

/-- A closed socket receives nothing. Time does not go back. After foreign datagrams alone the
call with nothing to read is owed to them, too. -/
def step (c : UdpClient) : Input → Option UdpClient
  | .wakeup => some { c with wakeup := .nothing }
  | .datagram source data =>
      if c.handle.isOpen then
        some { c.onDataReceived (.ok data) (some source) with
          foreignStamp := c.isForeign source
          wakeup := c.wokenBy source }
      else some c
  | .nothingToRead =>
      if c.handle.isOpen then
        some { c.onDataReceived (.ok []) none with
          foreignStamp := c.wakeup = .foreignOnly
          wakeup := .nothing }
      else some c
  | .readError error =>
      if c.handle.isOpen then
        some { c.onDataReceived (.error error) none with wakeup := .nothing }
      else some c
  | .setDestination endpoint hasReceiveCallback uv =>
      some (setDestinationImpl endpoint hasReceiveCallback uv c).2
  | .installTimeout timeoutMs hasCloseCallback => some (c.installTimeout timeoutMs hasCloseCallback)
  | .onTimer index => some (c.onTimer index)
  | .sendData size => some (c.sendData size)
  | .close => some c.closeImpl
  | .closingPhase =>
      if c.handle.inited && c.handle.closing then some c.onCloseNoRemoval else some c
  | .advance clock => if c.clock ≤ clock then some { c with clock } else none

end UdpClient

end TarmIo.Net
