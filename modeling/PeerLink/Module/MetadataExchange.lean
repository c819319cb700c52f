import PeerLink.Extension.MetadataMessage
import PeerLink.Module.SubProtocol

/-!
# The metadata exchange

A peer that has the metadata of a torrent serves it piece by piece.  A peer
that does not have it requests all pieces once it learns the size, and takes
the metadata for received when all pieces are there and have the info hash of
the connection.
-/

namespace PeerLink

open Bencode

/-- Metadata that is being fetched. -/
structure MetadataDownload where
  /-- The size that the peer announced. -/
  size : Nat
  /-- The pieces that arrived, each at its index. -/
  pieces : List (Option Bytes)
  deriving DecidableEq, Repr

namespace MetadataDownload

/-- A download of which nothing arrived. -/
def start (size : Nat) : MetadataDownload :=
  ⟨size, List.replicate (Metadata.pieceCount size) none⟩

/-- The indices of the pieces that are missing, in ascending order. -/
def missing (download : MetadataDownload) : List UInt32 :=
  download.pieces.zipIdx.filterMap fun (piece?, index) =>
    if piece?.isNone then some (UInt32.ofNat index) else none

/-- Whether all pieces are there. -/
def isComplete (download : MetadataDownload) : Bool := download.pieces.all Option.isSome

/-- The pieces that are there, one after another. -/
def assemble (download : MetadataDownload) : Bytes :=
  download.pieces.flatMap fun piece? => piece?.getD []

end MetadataDownload

/-- One side of a metadata exchange. -/
structure MetadataExchange where
  /-- The metadata, once it is known. -/
  metadata : Option Bytes
  /-- The download under way, if there is one. -/
  download : Option MetadataDownload
  deriving DecidableEq, Repr

namespace MetadataExchange

/-- The name of the sub-protocol. -/
def name : String := "ut_metadata"

/-- The greatest size that is fetched. -/
def maxSize : Nat := 8388608

/-- A side that fetches the metadata. -/
def fetching : MetadataExchange := ⟨none, none⟩

/-- A side that serves the metadata. -/
def serving (metadata : Bytes) : MetadataExchange := ⟨some metadata, none⟩

/-- The indices of the pieces that were requested and did not arrive yet. -/
def missing (exchange : MetadataExchange) : List UInt32 :=
  match exchange.download with
  | some download => download.missing
  | none => []

/-- Announces the size of the metadata, if it is known. -/
def handshakeFields (exchange : MetadataExchange) (fields : Dict) : Dict :=
  fields.insertSome "metadata_size"
    (exchange.metadata.map fun metadata => .int (Int64.ofNat metadata.length))

/-- The size to fetch by what the peer announced, if it is usable. -/
def usableSize? (announced : Option Int64) : Option Nat :=
  announced.bind fun n =>
    if 0 < n.toInt ∧ n.toInt ≤ maxSize then some n.toInt.toNat else none

/-- Requests all pieces if the peer has metadata that we neither have nor fetch. -/
def onHandshake (exchange : MetadataExchange) (context : SubContext)
    (handshake : ExtensionHandshake) : Reply MetadataExchange Unit :=
  if exchange.metadata.isSome || exchange.download.isSome then .ok exchange () .none
  else match usableSize? handshake.metadataSize with
    | none => .ok exchange () .none
    | some size =>
      let requests := (List.range (Metadata.pieceCount size)).map fun index =>
        (MetadataMessage.request (UInt32.ofNat index)).encode
      match requests.mapM context.frame with
      | .error failure => .fail exchange failure .none
      | .ok frames =>
        .ok { exchange with download := some (.start size) } () (.ofFrames frames)

/-- The answer to a request: the piece, or a refusal where there is none. -/
def answer (exchange : MetadataExchange) (piece : UInt32) : MetadataMessage :=
  match exchange.metadata with
  | none => .reject piece
  | some metadata =>
    if piece.toNat < Metadata.pieceCount metadata.length then
      .ofPiece piece (UInt32.ofNat metadata.length) (Metadata.piece metadata piece.toNat)
    else .reject piece

/-- Ends a download that has all its pieces.  Metadata without the info hash of
the connection is thrown away. -/
def finish (exchange : MetadataExchange) (context : SubContext) (download : MetadataDownload) :
    Reply MetadataExchange Unit :=
  let metadata := download.assemble
  match context.state.infoHash with
  | none => .fail { exchange with download := some download } (.extension .unverifiable) .none
  | some infoHash =>
    if Sha1.digest metadata = infoHash then
      .ok ⟨some metadata, none⟩ () (.ofEvent (.metadataReceived metadata))
    else .fail { exchange with download := none } (.extension .hashMismatch) .none

/-- Stores a piece that arrived.  A piece that was not asked for is ignored. -/
def receive (exchange : MetadataExchange) (context : SubContext) (piece : UInt32)
    (data : Bytes) : Reply MetadataExchange Unit :=
  match exchange.download with
  | none => .ok exchange () .none
  | some download =>
    let expected := Metadata.pieceSize piece.toNat download.size
    if download.pieces.length ≤ piece.toNat then
      .fail exchange (.extension (.pieceOutOfRange piece)) .none
    else if data.length ≠ expected then
      .fail exchange (.extension (.pieceSize piece data.length expected)) .none
    else
      let download := { download with pieces := download.pieces.set piece.toNat (some data) }
      if download.isComplete then exchange.finish context download
      else .ok { exchange with download := some download } () .none

/-- Answers a request, stores a piece, or reports a refusal. -/
def onMessage (exchange : MetadataExchange) (context : SubContext) (payload : Bytes) :
    Reply MetadataExchange Unit :=
  match MetadataMessage.decode payload with
  | .error failure => .fail exchange failure .none
  | .ok message =>
    match message.type with
    | .request => context.send exchange (exchange.answer message.piece).encode
    | .data => exchange.receive context message.piece (message.data.getD [])
    | .reject => .ok exchange () (.ofEvent (.metadataRejected message.piece))

instance : SubProtocol MetadataExchange where
  name _ := name
  handshakeFields := handshakeFields
  onHandshake := onHandshake
  onMessage := onMessage
  onTeardown exchange := ({ exchange with download := none }, [])

end MetadataExchange
end PeerLink
