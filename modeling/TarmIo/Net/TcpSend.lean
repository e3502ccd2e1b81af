import TarmIo.StatusCode

/-!
# Sending in `net/detail/TcpClientImplBase.h`

The write path of a TCP client. A buffer is the bytes behind a raw pointer, `none`
for null. The result of `uv_write` is an argument: the library decides it. The
callback flag says that an end-send callback was passed.
-/

namespace TarmIo.Net

/-- A request that `uv_write` accepted, or a call of an end-send callback. -/
inductive SendEffect where
  | write (bytes : List UInt8)
  | callback (error : Error)
deriving DecidableEq

def SendEffect.report (callback : Bool) (error : Error) : List SendEffect :=
  if callback then [.callback error] else []

structure TcpClient where
  isOpen : Bool
  pendingWriteRequests : Nat
deriving DecidableEq

namespace TcpClient

open SendEffect

def sendDataImpl (c : TcpClient) (buffer : Option (List UInt8)) (size : UInt32)
    (callback : Bool) (uvWrite : Error) : TcpClient × List SendEffect :=
  if !c.isOpen then (c, report callback (.ofCode .notConnected))
  else if size = 0 ∨ buffer = none then (c, report callback (.ofCode .invalidArgument))
  else if uvWrite.isError then (c, report callback uvWrite)
  else
    ({ c with pendingWriteRequests := c.pendingWriteRequests + 1 },
      [.write ((buffer.getD []).take size.toNat)])

def copyAndSendData (c : TcpClient) (bytes : List UInt8) (size : UInt32) (callback : Bool)
    (uvWrite : Error) : TcpClient × List SendEffect :=
  c.sendDataImpl (some (bytes.take size.toNat)) size callback uvWrite

/-- The overloads for a pointer, a shared and a unique buffer. -/
def sendData (c : TcpClient) (buffer : Option (List UInt8)) (size : UInt32) (callback : Bool)
    (uvWrite : Error) : TcpClient × List SendEffect :=
  c.sendDataImpl buffer size callback uvWrite

/-- The overload for a string, which is copied. Its length is cast to 32 bits. -/
def sendDataString (c : TcpClient) (message : List UInt8) (callback : Bool) (uvWrite : Error) :
    TcpClient × List SendEffect :=
  c.sendData (some message) (UInt32.ofNat message.length) callback uvWrite

/-- The overload for a string that is moved in. -/
def sendDataStringMove (c : TcpClient) (message : List UInt8) (callback : Bool)
    (uvWrite : Error) : TcpClient × List SendEffect :=
  c.sendDataImpl (some message) (UInt32.ofNat message.length) callback uvWrite

/-- What a send on an open client does when `uv_write` accepts. -/
theorem sendDataImpl_open {c : TcpClient} (hopen : c.isOpen = true)
    (buffer : Option (List UInt8)) (size : UInt32) (callback : Bool) :
    (c.sendDataImpl buffer size callback {}).2 =
      if size = 0 ∨ buffer = none then report callback (.ofCode .invalidArgument)
      else [.write ((buffer.getD []).take size.toNat)] := by
  by_cases hbad : size = 0 ∨ buffer = none
  · simp [sendDataImpl, hopen, hbad]
  · simp [sendDataImpl, hopen, hbad]

theorem sendDataImpl_isOpen (c : TcpClient) (buffer : Option (List UInt8)) (size : UInt32)
    (callback : Bool) (uvWrite : Error) :
    (c.sendDataImpl buffer size callback uvWrite).1.isOpen = c.isOpen := by
  simp only [sendDataImpl]
  split
  · rfl
  · split
    · rfl
    · split <;> rfl

end TcpClient

end TarmIo.Net
