import PeerLink.Bencode.Error
import PeerLink.Text.Hex

/-!
# What can go wrong on a connection

`Failure` is the one type of failures.  Its constructors are the kinds that a
caller tells apart, each with the cause it needs; `Failure.message` is the one
place that words them.
-/

namespace PeerLink

/-- Why a transport refused an operation. -/
inductive TransportFault where
  | connectionRefused | connectionReset | connectionAborted | brokenPipe | notConnected
  | timedOut | permissionDenied | addressInUse | unexpectedEof | wouldBlock | interrupted
  | other
  deriving DecidableEq, Repr

/-- The wording of a transport fault. -/
def TransportFault.message : TransportFault → String
  | connectionRefused => "connection refused"
  | connectionReset => "connection reset"
  | connectionAborted => "connection aborted"
  | brokenPipe => "broken pipe"
  | notConnected => "not connected"
  | timedOut => "timed out"
  | permissionDenied => "permission denied"
  | addressInUse => "address in use"
  | unexpectedEof => "unexpected end of file"
  | wouldBlock => "operation would block"
  | interrupted => "operation interrupted"
  | other => "other error"

/-- What is wrong with an argument of the caller. -/
inductive ArgumentFault where
  /-- An info hash is 40 hexadecimal digits, and this many bytes were given. -/
  | infoHashLength (got : Nat)
  /-- A character of the info hash is no hexadecimal digit. -/
  | infoHashDigit (bad : Hex.BadDigit)
  /-- A peer id is 20 bytes, and this many were given. -/
  | peerIdLength (got : Nat)
  /-- Our handshake can be sent only once. -/
  | handshakeSent
  /-- Modules contribute to our handshake, so none can follow it. -/
  | lateModule
  /-- Two sub-protocols would answer to one name. -/
  | nameTaken (name : String)
  /-- All ids for extended messages are assigned. -/
  | idsExhausted
  /-- A fault of a custom module, in its own words. -/
  | custom (text : String)
  deriving DecidableEq, Repr

/-- The wording of an argument fault. -/
def ArgumentFault.message : ArgumentFault → String
  | infoHashLength got => "info hash must be 40 hex characters, got " ++ got.repr
  | infoHashDigit bad =>
    "info hash: Invalid character " ++ Quoted.char bad.code ++
      " at position " ++ bad.position.repr
  | peerIdLength got => "peer id must be 20 bytes, got " ++ got.repr
  | handshakeSent => "handshake already sent"
  | lateModule => "extensions must be registered before the handshake"
  | nameTaken name => "sub-protocol " ++ name ++ " registered twice"
  | idsExhausted => "no extended message IDs left"
  | custom text => text

/-- What is wrong with the payload of a message. -/
inductive PayloadFault where
  /-- The payload is shorter than the fixed layout of what it carries. -/
  | tooShort (what : String) (needed got : Nat)
  /-- The length of a bitfield differs from the one its frame declared. -/
  | bitfieldLength (declared got : Nat)
  /-- An extended message has no id byte. -/
  | missingExtendedId
  /-- The payload of a base command does not follow its layout. -/
  | invalidCommand (command : UInt8)
  /-- A fault of a custom module, in its own words. -/
  | custom (text : String)
  deriving DecidableEq, Repr

/-- The wording of a payload fault. -/
def PayloadFault.message : PayloadFault → String
  | tooShort what needed got =>
    what ++ " needs " ++ needed.repr ++ " bytes, got " ++ got.repr
  | bitfieldLength declared got =>
    "bitfield declared " ++ declared.repr ++ " bytes, got " ++ got.repr
  | missingExtendedId => "extended message without id"
  | invalidCommand command => "invalid payload for command " ++ command.toNat.repr
  | custom text => text

/-- What is wrong with the use of the extension protocol. -/
inductive ExtensionFault where
  /-- The payload is bencoded, and no dictionary. -/
  | notADictionary
  /-- The table of extended message ids is no dictionary. -/
  | tableNotADictionary
  /-- A metadata message lacks this key. -/
  | missingKey (key : String)
  /-- No metadata message has this type. -/
  | unknownMessageType (type : UInt8)
  /-- The metadata has no such piece. -/
  | pieceOutOfRange (piece : UInt32)
  /-- A piece of metadata does not have the size that its index gives. -/
  | pieceSize (piece : UInt32) (got expected : Nat)
  /-- There is no info hash to compare the metadata with. -/
  | unverifiable
  /-- The metadata does not have the info hash of the connection. -/
  | hashMismatch
  /-- The peer assigned no id to the sub-protocol. -/
  | unsupportedByPeer (name : String)
  /-- The connection has no extension protocol. -/
  | noRegistry
  /-- The connection has no info hash yet. -/
  | noInfoHash
  /-- A fault of a custom module, in its own words. -/
  | custom (text : String)
  deriving DecidableEq, Repr

/-- The wording of an extension fault. -/
def ExtensionFault.message : ExtensionFault → String
  | notADictionary => "expected dict"
  | tableNotADictionary => "m is not a dict"
  | missingKey key => "missing " ++ key
  | unknownMessageType type => "invalid msg_type " ++ type.toNat.repr
  | pieceOutOfRange piece => "metadata piece " ++ piece.toNat.repr ++ " out of range"
  | pieceSize piece got expected =>
    "metadata piece " ++ piece.toNat.repr ++ " is " ++ got.repr ++ " bytes, expected " ++
      expected.repr
  | unverifiable => "no info hash to verify metadata"
  | hashMismatch => "metadata hash mismatch"
  | unsupportedByPeer name => "peer does not support " ++ name
  | noRegistry => "extension protocol not registered"
  | noInfoHash => "no info hash before handshake"
  | custom text => text

/-- Why an operation on a connection failed. -/
inductive Failure where
  /-- The transport failed. -/
  | io (fault : TransportFault)
  /-- The caller passed an argument out of contract. -/
  | invalidArgument (fault : ArgumentFault)
  /-- The peer speaks another protocol. -/
  | unsupportedProtocol
  /-- The peer's info hash is not ours. -/
  | infoHashMismatch
  /-- A payload does not follow the layout of its message. -/
  | malformedPayload (fault : PayloadFault)
  /-- The peer declared a frame longer than we accept. -/
  | frameTooLarge (length : Nat)
  /-- No sub-protocol has this extended message id. -/
  | unroutable (id : UInt8)
  /-- The connection is closed. -/
  | connectionClosed
  /-- The extension protocol was violated or is unavailable. -/
  | extension (fault : ExtensionFault)
  /-- Bencoded data in an extension message is wrong. -/
  | bencode (error : Bencode.Error)
  deriving DecidableEq, Repr

/-- The wording of a failure. -/
def Failure.message : Failure → String
  | io fault => "io error: " ++ fault.message
  | invalidArgument fault => "invalid argument: " ++ fault.message
  | unsupportedProtocol => "unsupported protocol"
  | infoHashMismatch => "info hash mismatch"
  | malformedPayload fault => "malformed payload: " ++ fault.message
  | frameTooLarge length => "frame too large: " ++ length.repr ++ " bytes"
  | unroutable id => "unroutable extended message id: " ++ id.toNat.repr
  | connectionClosed => "connection closed"
  | extension fault => "extension error: " ++ fault.message
  | bencode error => "bencode error: " ++ error.message

/-- Takes a failure to read bencoded data as a failure of the connection. -/
def Failure.ofBencode {α : Type} : Except Bencode.Error α → Except Failure α
  | .ok a => .ok a
  | .error e => .error (.bencode e)

end PeerLink
