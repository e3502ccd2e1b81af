import Mathlib.Data.List.Basic

/-!
# Status codes and errors

The code list of `StatusCode.h` in its order, and the part of `Error` that
callbacks look at: the code and the additional text. The raw libuv number an
error was made from is kept by the source for printing only and is left out.
-/

namespace TarmIo

inductive StatusCode where
  | ok | undefined | fileNotOpen | dirNotOpen | transportInitFailure
  | tlsCertificateFileNotExist | tlsPrivateKeyFileNotExist | tlsCertificateInvalid
  | tlsPrivateKeyInvalid | tlsPrivateKeyAndCertificateNotMatch | notConnected
  | operationAlreadyInProgress | peerNotFound | opensslError | argumentListTooLong
  | permissionDenied | addressAlreadyInUse | addressNotAvailable
  | addressFamilyNotSupported | resourceTemporarilyUnavailable | temporaryFailure
  | badAiFlagsValue | invalidValueForHints | requestCanceled | permanentFailure
  | aiFamilyNotSupported | outOfMemory | noAddressAvailable | unknownNodeOrService
  | argumentBufferOverflow | resolvedProtocolIsUnknown | serviceNotAvailableForSocketType
  | socketTypeNotSupported | connectionAlreadyInProgress | badFileDescriptor
  | resourceBusyOrLocked | operationCanceled | invalidUnicodeCharacter
  | softwareCausedConnectionAbort | connectionRefused | connectionResetByPeer
  | destinationAddressRequired | fileOrDirAlreadyExists | badAddressInSystemCallArgument
  | fileTooLarge | hostIsUnreachable | interruptedSystemCall | invalidArgument | ioError
  | socketIsAlreadyConnected | illegalOperationOnADirectory
  | tooManySymbolicLinksEncountered | tooManyOpenFiles | messageTooLong | nameTooLong
  | networkIsDown | networkIsUnreachable | fileTableOverflow | noBufferSpaceAvailable
  | noSuchDevice | noSuchFileOrDirectory | notEnoughMemory | machineIsNotOnTheNetwork
  | protocolNotAvailable | noSpaceLeftOnDevice | functionNotImplemented
  | socketIsNotConnected | notADirectory | directoryNotEmpty | socketOperationOnNonSocket
  | operationNotSupportedOnSocket | operationNotPermitted | operationOnClosedSocket
  | protocolError | protocolNotSupported | protocolWrongTypeForSocket | resultTooLarge
  | readOnlyFileSystem | cannotSendAfterTransportEndpointShutdown | invalidSeek
  | noSuchProcess | connectionTimedOut | textFileIsBusy | crossDeviceLinkNotPermitted
  | unknownError | endOfFile | noSuchDeviceOrAddress | tooManyLinks | hostIsDown
  | remoteIoError | inappropriateIoctlForDevice | inappropriateFileTypeOrFormat
deriving DecidableEq

structure Error where
  code : StatusCode := .ok
  additionalInfo : String := ""
deriving DecidableEq

namespace Error

/-- `Error(StatusCode)`, also the conversion from a status code. -/
def ofCode (code : StatusCode) : Error := { code := code }

def isError (e : Error) : Bool := e.code != .ok

@[simp] theorem isError_default : isError {} = false := rfl

theorem isError_ofCode (code : StatusCode) : isError (ofCode code) = (code != .ok) := rfl

end Error

end TarmIo
