import PeerLink.Bytes
import PeerLink.Text.Utf8
import PeerLink.Text.Hex
import PeerLink.Text.Quoted
import PeerLink.Text.Decimal
import PeerLink.Bencode.Error
import PeerLink.Bencode.Value
import PeerLink.Bencode.Dict
import PeerLink.Bencode.Printer
import PeerLink.Bencode.Parser
import PeerLink.Bencode.Display
import PeerLink.Octet
import PeerLink.Bitfield
import PeerLink.Block
import PeerLink.Sha1
import PeerLink.Failure
import PeerLink.PeerId
import PeerLink.Address
import PeerLink.Wire.Handshake
import PeerLink.Wire.Frame
import PeerLink.Wire.Command
import PeerLink.Wire.Message
import PeerLink.Wire.Reassembly
import PeerLink.Extension.Handshake
import PeerLink.Extension.MetadataMessage
import PeerLink.Extension.PeerExchange
import PeerLink.Event
import PeerLink.Wire.Inbound
import PeerLink.RemotePieces
import PeerLink.ConnectionState
import PeerLink.Module.Capability
import PeerLink.Module.AllowedFast
import PeerLink.Module.FastExtension
import PeerLink.Extension.IdTable
import PeerLink.Module.SubProtocol
import PeerLink.Module.MetadataExchange
import PeerLink.Module.PeerExchangeChannel
import PeerLink.Module.AnySubProtocol
import PeerLink.Module.Registry
import PeerLink.Module.AnyModule
import PeerLink.Scripted.Module
import PeerLink.Scripted.SubProtocol
import PeerLink.Connection.Transport
import PeerLink.Connection.Picker
import PeerLink.Connection.Basic
import PeerLink.Connection.Opening
import PeerLink.Connection.Process
import PeerLink.Connection.Send
import PeerLink.Connection.Query
import PeerLink.Connection.Call
import PeerLink.Connection.Link
import PeerLink.Wire.Announcement
import PeerLink.Scripted.Acting
import PeerLink.Proofs.Decimal
import PeerLink.Proofs.Bencode.Dict
import PeerLink.Proofs.Bencode.Grammar
import PeerLink.Proofs.Bencode.Reading
import PeerLink.Proofs.Bencode.RoundTrip
import PeerLink.Proofs.ConnectionState
import PeerLink.Proofs.Module.Sending
import PeerLink.Proofs.Module.Output
import PeerLink.Proofs.Module.Refusal
import PeerLink.Proofs.Connection.Step
import PeerLink.Proofs.Connection.Outbound
import PeerLink.Proofs.Connection.Greeting
import PeerLink.Proofs.Connection.Hearing
import PeerLink.Proofs.Wire.Reassembly
import PeerLink.Proofs.Connection.Listening
import PeerLink.Proofs.Connection.Round
import PeerLink.Proofs.Connection.Reliable
import PeerLink.Proofs.Connection.Close
import PeerLink.Proofs.Connection.Splitting
import PeerLink.Proofs.Module.Negotiation
import PeerLink.Proofs.Module.MetadataExchange
import PeerLink.Proofs.Module.MetadataFetch
import PeerLink.Proofs.Module.Attendance
import PeerLink.Proofs.Module.Offering
import PeerLink.Proofs.Connection.Lifecycle
import PeerLink.Proofs.Module.Life
import PeerLink.Proofs.Connection.Telling
import PeerLink.Proofs.Connection.Finality
import PeerLink.Proofs.Connection.Carrying
import PeerLink.Proofs.Connection.LateFrames
import PeerLink.Proofs.Extension.Handshake
import PeerLink.Proofs.Extension.MetadataMessage
import PeerLink.Proofs.Connection.Fetching
import PeerLink.Proofs.Wire.Exactness
import PeerLink.Proofs.Connection.Posting
import PeerLink.Proofs.Connection.Fifo
import PeerLink.Proofs.Connection.Intake
import PeerLink.Proofs.Connection.Meeting
import PeerLink.Proofs.Wire.Message
import PeerLink.Proofs.Connection.Ledger
import PeerLink.Proofs.Joint.Basic
import PeerLink.Proofs.Joint.Mirror
import PeerLink.Proofs.Connection.Plain
import PeerLink.Proofs.Connection.PlainRun
import PeerLink.Proofs.Joint.Delivery
import PeerLink.Proofs.Wire.Chunks
import PeerLink.Proofs.Bitfield
import PeerLink.Proofs.RemotePieces
import PeerLink.Proofs.Connection.Disguise
import PeerLink.Proofs.Guarded.Basic
import PeerLink.Proofs.Guarded.Bencode
import PeerLink.Proofs.Guarded.Pieces
import PeerLink.Proofs.Guarded.Wire
import PeerLink.Proofs.Guarded.Extension
import PeerLink.Proofs.Guarded.SubProtocols
import PeerLink.Proofs.Guarded.Modules
import PeerLink.Proofs.Guarded.Room
import PeerLink.Proofs.Guarded.Connection
import PeerLink.Proofs.Bencode.Streaming
import PeerLink.Proofs.Bencode.AssociationList
import PeerLink.Proofs.Connection.Backlog
import PeerLink.Proofs.PieceSet
import PeerLink.Proofs.Announced
import PeerLink.Proofs.Connection.Routing
import PeerLink.Proofs.Extension.RoundTrip
import PeerLink.Proofs.Module.PeerIds
import PeerLink.Proofs.Wire.Codec
import PeerLink.Proofs.Wire.Awaiting
import PeerLink.Proofs.Hex
import PeerLink.Proofs.Module.InTurn
import PeerLink.Proofs.Connection.Introduction
import PeerLink.Proofs.Noting
import PeerLink.Proofs.Wire.Layout
import PeerLink.Proofs.Connection.Ownership
import PeerLink.Proofs.Address
import PeerLink.Proofs.Extension.PeerExchange
import PeerLink.Proofs.FirstOccurrence
import PeerLink.Proofs.Module.AllowedFast
import PeerLink.Proofs.Module.FastExtension
import PeerLink.Proofs.Connection.Allowing
