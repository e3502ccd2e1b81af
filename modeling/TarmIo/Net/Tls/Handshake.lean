import TarmIo.StatusCode

/-!
# The handshake of `net/detail/OpenSslClientImplBase.h`

The common part of the TLS and DTLS clients: the two memory BIOs, the handshake
state and the sends whose callbacks are still to come. What OpenSSL answers is an
argument of each call: the result of `SSL_do_handshake` with the bytes it took
from the read BIO and put into the write BIO, and what a loop of `SSL_read` gave.
The virtual functions a client overrides are effects.
-/

namespace TarmIo.Net.Tls

inductive HandshakeState where
  | none
  | inProgress
  | finishing
  | finished
deriving DecidableEq

/-- What `SSL_do_handshake` returned: 1, a negative number with what `SSL_get_error`
says, or anything else. `reason` is the text for the queued error, if there is one. -/
inductive HandshakeResult where
  | done
  | wantRead
  | wantWrite
  | error (reason : Option String)
  | shutDown (reason : Option String)
deriving DecidableEq

structure HandshakeCall where
  result : HandshakeResult
  produced : List UInt8
  consumed : Nat

/-- How the `SSL_read` loop ended: with zero, or negative with what `SSL_get_error` says. -/
inductive ReadEnd where
  | zero
  | wantRead
  | error (reason : Option String)
deriving DecidableEq

/-- A loop of `SSL_read`: the decrypted pieces, the last result and the bytes taken
from the read BIO. -/
structure ReadLoop where
  pieces : List (List UInt8)
  last : ReadEnd
  consumed : Nat

inductive SendCallback where
  | handshake
  | finishing (readPending : Nat)
  | ignored
deriving DecidableEq

/-- Bytes passed to the underlying client, and calls of the virtual functions. -/
inductive SslEffect where
  | send (bytes : List UInt8)
  | handshakeComplete
  | handshakeFailed (error : Error)
  | sslRead (data : Option (List UInt8)) (offset : Nat) (error : Error)
deriving DecidableEq

/-- `sends` are the accepted sends, oldest first. `offered` is no member of the source: it
counts the bytes at the head of the read BIO that were there when a loop of
`SSL_read` ran dry. -/
structure SslClient where
  handshakeState : HandshakeState := .none
  readBio : List UInt8 := []
  writeBio : List UInt8 := []
  sends : List SendCallback := []
  dataOffset : Nat := 0
  offered : Nat := 0
deriving DecidableEq

/-- `Error(StatusCode::OPENSSL_ERROR, str ? str : "")`. -/
def opensslError (reason : Option String) : Error := ⟨.opensslError, reason.getD ""⟩

def invalidDataError : Error := ⟨.opensslError, "Handshake failed, invalid data"⟩

namespace SslClient

/-- `BIO_write` on the read BIO, of which `bytes` were accepted. -/
def bioWrite (c : SslClient) (bytes : List UInt8) : SslClient :=
  { c with readBio := c.readBio ++ bytes }

def sslReadPieces : Nat → List (List UInt8) → List SslEffect
  | _, [] => []
  | offset, piece :: pieces =>
      .sslRead (some piece) offset {} :: sslReadPieces (offset + piece.length) pieces

def readFromSsl (c : SslClient) (read : ReadLoop) : SslClient × List SslEffect :=
  let rest := c.readBio.drop read.consumed
  ({ c with
      readBio := rest
      offered := rest.length
      dataOffset := c.dataOffset + read.pieces.flatten.length },
    sslReadPieces c.dataOffset read.pieces ++
      match read.last with
      | .zero | .wantRead => []
      | .error reason => [.sslRead none 0 (opensslError reason)])

def finishHandshake (c : SslClient) : SslClient × List SslEffect :=
  ({ c with handshakeState := .finished }, [.handshakeComplete])

/-- `finish_handshake` and, if data was pending when the handshake was done, a first read. -/
def finishAndRead (c : SslClient) (readPending : Nat) (read : ReadLoop) :
    SslClient × List SslEffect :=
  let f := c.finishHandshake
  if readPending ≠ 0 then
    let r := f.1.readFromSsl read
    (r.1, f.2 ++ r.2)
  else f

def runSendCallback (c : SslClient) (callback : SendCallback) (error : Error) (read : ReadLoop) :
    SslClient × List SslEffect :=
  match callback with
  | .ignored => (c, [])
  | .handshake => (c, if error.isError then [.handshakeFailed error] else [])
  | .finishing readPending =>
      if error.isError then (c, [.handshakeFailed error]) else c.finishAndRead readPending read

/-- `send` is the error with which the underlying client refuses the send at once, or the
default when it accepts. -/
def internalReadFromSllAndSend (c : SslClient) (onSend : SendCallback) (send : Error)
    (read : ReadLoop) : SslClient × List SslEffect :=
  if c.writeBio = [] then (c, [])
  else if send.isError then { c with writeBio := [] }.runSendCallback onSend send read
  else ({ c with writeBio := [], sends := c.sends ++ [onSend] }, [.send c.writeBio])

/-- The part of `do_handshake` behind `SSL_do_handshake`, whose effect on the BIOs has
taken place. -/
def afterSslDoHandshake (c : SslClient) (result : HandshakeResult) (send : Error)
    (read : ReadLoop) : SslClient × List SslEffect :=
  match result with
  | .wantRead =>
      if c.writeBio = [] then (c, [.handshakeFailed invalidDataError])
      else c.internalReadFromSllAndSend .handshake send read
  | .wantWrite => (c, [])
  | .error reason =>
      let s := c.internalReadFromSllAndSend .ignored send read
      (s.1, s.2 ++ [.handshakeFailed (opensslError reason)])
  | .done =>
      if c.writeBio = [] then c.finishAndRead c.readBio.length read
      else
        { c with handshakeState := .finishing }.internalReadFromSllAndSend
          (.finishing c.readBio.length) send read
  | .shutDown reason => (c, [.handshakeFailed (opensslError reason)])

def sslDoHandshake (c : SslClient) (call : HandshakeCall) : SslClient :=
  { c with
    readBio := c.readBio.drop call.consumed
    writeBio := c.writeBio ++ call.produced
    offered := c.offered - call.consumed }

def doHandshake (c : SslClient) (call : HandshakeCall) (send : Error) (read : ReadLoop) :
    SslClient × List SslEffect :=
  if c.handshakeState = .finishing then (c, [])
  else (c.sslDoHandshake call).afterSslDoHandshake call.result send read

/-- `on_data_receive`; `writeSize` is what `BIO_write` returns. -/
def onDataReceive (c : SslClient) (data : List UInt8) (writeSize : Int) (call : HandshakeCall)
    (send : Error) (read : ReadLoop) : SslClient × List SslEffect :=
  if c.handshakeState = .finished then
    if writeSize < 0 then (c, [])
    else (c.bioWrite (data.take writeSize.toNat)).readFromSsl read
  else if writeSize ≤ 0 then (c, [.handshakeFailed invalidDataError])
  else (c.bioWrite (data.take writeSize.toNat)).doHandshake call send read

def sendCompleted (c : SslClient) (status : Error) (read : ReadLoop) :
    Option (SslClient × List SslEffect) :=
  match c.sends with
  | [] => none
  | callback :: rest => some ({ c with sends := rest }.runSendCallback callback status read)

end SslClient

end TarmIo.Net.Tls
