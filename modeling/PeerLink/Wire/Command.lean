/-!
# Commands

The first byte of a frame's body.  Base commands are numbered 0 to 9, those of
the fast extension 13 to 17, and 20 carries all extended messages.  Other bytes
are not known here, and modules may claim them.
-/

namespace PeerLink

/-- A known command. -/
inductive Command where
  | choke | unchoke | interested | notInterested | havePiece | bitfield | request | piece
  | cancel | port
  | suggest | haveAll | haveNone | reject | allowedFast
  | extended
  deriving DecidableEq, Repr

namespace Command

/-- The byte of a command. -/
def toByte : Command → UInt8
  | choke => 0
  | unchoke => 1
  | interested => 2
  | notInterested => 3
  | havePiece => 4
  | bitfield => 5
  | request => 6
  | piece => 7
  | cancel => 8
  | port => 9
  | suggest => 13
  | haveAll => 14
  | haveNone => 15
  | reject => 16
  | allowedFast => 17
  | extended => 20

/-- All known commands. -/
def all : List Command :=
  [choke, unchoke, interested, notInterested, havePiece, bitfield, request, piece, cancel, port,
    suggest, haveAll, haveNone, reject, allowedFast, extended]

/-- The command of a byte, if it is a known one. -/
def ofByte? (byte : UInt8) : Option Command := all.find? fun command => command.toByte == byte

/-- The name of a command. -/
def name : Command → String
  | choke => "Choke"
  | unchoke => "Unchoke"
  | interested => "Interested"
  | notInterested => "NotInterested"
  | havePiece => "Have"
  | bitfield => "Bitfield"
  | request => "Request"
  | piece => "Piece"
  | cancel => "Cancel"
  | port => "Port"
  | suggest => "Suggest"
  | haveAll => "HaveAll"
  | haveNone => "HaveNone"
  | reject => "Reject"
  | allowedFast => "AllowedFast"
  | extended => "Extended"

/-- A known command is found by its byte. -/
@[simp]
theorem ofByte?_toByte (command : Command) : ofByte? command.toByte = some command := by
  cases command <;> decide

theorem ofByte?_eq_some_iff {byte : UInt8} {command : Command} :
    ofByte? byte = some command ↔ command.toByte = byte := by
  constructor
  · intro h
    simpa using List.find?_some h
  · rintro rfl
    exact ofByte?_toByte command

end Command
end PeerLink
