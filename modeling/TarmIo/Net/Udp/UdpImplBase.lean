import TarmIo.StatusCode

/-!
# `UdpImplBase.h`

The handle of a UDP server or client: whether it was initialised, and the two flags of
libuv that the code asks for.
-/

namespace TarmIo.Net

structure UvUdp where
  init : Error := {}
  bind : Error := {}
  recvStart : Error := {}

/-- `m_udp_handle_inited`, and `uv_is_closing` and `IO_UV_HANDLE_BOUND` of `m_udp_handle`. -/
structure UdpHandle where
  inited : Bool := false
  closing : Bool := false
  bound : Bool := false
deriving DecidableEq

namespace UdpHandle

def isOpen (h : UdpHandle) : Bool :=
  h.inited && !h.closing

/-- `uv_udp_init` clears the flags. -/
def ensureInited (uv : UvUdp) (h : UdpHandle) : Error × UdpHandle :=
  if h.inited then ({}, h)
  else if uv.init.isError then (uv.init, h)
  else ({}, { inited := true })

def bind (uv : UvUdp) (h : UdpHandle) : Error × UdpHandle :=
  if uv.bind.isError then (uv.bind, h) else ({}, { h with bound := true })

/-- `uv_close`; the flag stays set in the handle's memory. -/
def close (h : UdpHandle) : UdpHandle :=
  { h with closing := true }

def resetState (h : UdpHandle) : UdpHandle :=
  { h with inited := false }

end UdpHandle

end TarmIo.Net
