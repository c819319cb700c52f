import PeerLink.Bytes

/-!
# Addresses of peers

An address is an IPv4 or IPv6 host and a port.  Its compact form is the host's
octets followed by the port, most significant byte first, so the two families
take 6 and 18 bytes.
-/

namespace PeerLink

/-- A host of either family, by its octets. -/
inductive Host where
  | v4 (octets : Vector UInt8 4)
  | v6 (octets : Vector UInt8 16)
  deriving DecidableEq, Repr

namespace Host

/-- The octets in wire order. -/
def toBytes : Host → Bytes
  | v4 octets => octets.toList
  | v6 octets => octets.toList

/-- Whether the host is of the older family. -/
def isV4 : Host → Bool
  | v4 _ => true
  | v6 _ => false

/-- The host that four or sixteen octets name. -/
def ofBytes? (bytes : Bytes) : Option Host :=
  match Bytes.toVector? 4 bytes with
  | some octets => some (.v4 octets)
  | none => (Bytes.toVector? 16 bytes).map .v6

end Host

/-- Where a peer can be reached. -/
structure Address where
  host : Host
  port : UInt16
  deriving DecidableEq, Repr

namespace Address

/-- The compact form: the octets of the host, then the port. -/
def compact (address : Address) : Bytes :=
  address.host.toBytes ++ Bytes.ofUInt16 address.port

/-- The IPv4 address that a compact record of six bytes stands for. -/
def ofRecord4 (record : Vector UInt8 6) : Address :=
  ⟨.v4 #v[record[0], record[1], record[2], record[3]], Bytes.word16 record[4] record[5]⟩

/-- The IPv6 address that a compact record of eighteen bytes stands for. -/
def ofRecord6 (record : Vector UInt8 18) : Address :=
  ⟨.v6 (record.take 16), Bytes.word16 record[16] record[17]⟩

/-- The IPv4 addresses in a run of compact records. -/
def list4 (bytes : Bytes) : List Address := (Bytes.records 6 bytes).map ofRecord4

/-- The IPv6 addresses in a run of compact records. -/
def list6 (bytes : Bytes) : List Address := (Bytes.records 18 bytes).map ofRecord6

end Address
end PeerLink
