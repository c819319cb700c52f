import PeerLink.Extension.Handshake
import PeerLink.Extension.PeerExchange
import PeerLink.Proofs.Extension.MetadataMessage
import PeerLink.Proofs.Guarded.Bencode
import PeerLink.Proofs.Wire.Exactness

/-!
# Reading the messages of the extension protocol

A dictionary that was read is looked up through its index, and a position in the index is
followed without a check.  This module reads the messages of the extension protocol so, with
guarded operations only.  No operation stops, since the keys of a dictionary that was read
are different from each other.
-/

namespace PeerLink
namespace Guarded

open Bencode

/-! ## Dictionaries -/

/-- The value under a key, at the position that the index has for it. -/
def lookup (d : Dict) (key : Bytes) : Option (Option Value) :=
  match d.index[key]? with
  | none => some none
  | some position => d.entries[position]?.map fun entry => some entry.2

/-- Stores a value, at the position that the index has for its key or at the end. -/
def insert (d : Dict) (key : Bytes) (value : Value) : Option Dict :=
  match d.index[key]? with
  | none => some (d.push key value)
  | some position =>
    if position < d.entries.size then
      some { d with entries := d.entries.modify position fun entry => (entry.1, value) }
    else none

/-- Stores several values, in order. -/
def insertAll (d : Dict) : Entries → Option Dict
  | [] => some d
  | entry :: rest => do insertAll (← insert d entry.1 entry.2) rest

/-- What the dictionary with these entries holds under a key. -/
def get (entries : Entries) (key : String) : Option (Option Value) :=
  lookup (.ofList entries) (Bytes.ofText key)

variable {d : Dict} {entries : Entries}

/-- Where the index of a key points to, there is an entry. -/
theorem lt_size_of_index (h : d.WellIndexed) {key : Bytes} {position : Nat}
    (hindex : d.index[key]? = some position) : position < d.entries.size := by
  obtain ⟨front, old, back, hsplit, rfl⟩ := h.exists_split hindex
  have hlength := congrArg List.length hsplit
  rw [Dict.toList, Array.length_toList, List.length_append, List.length_cons] at hlength
  omega

theorem lookup_eq (h : d.WellIndexed) (key : Bytes) :
    lookup d key = some (d.toList.lookup key) := by
  rw [← h.get?_eq, lookup, Dict.get?]
  cases hindex : d.index[key]? with
  | none => rfl
  | some position =>
    have hentry := Array.getElem?_eq_getElem (lt_size_of_index h hindex)
    simp [hentry]

theorem insert_eq (h : d.WellIndexed) (key : Bytes) (value : Value) :
    insert d key value = some (d.insert key value) := by
  rw [insert, Dict.insert]
  cases hindex : d.index[key]? with
  | none => rfl
  | some position => exact if_pos (lt_size_of_index h hindex)

theorem insertAll_eq (h : d.WellIndexed) (entries : Entries) :
    insertAll d entries = some (entries.foldl (fun d e => d.insert e.1 e.2) d) := by
  induction entries generalizing d with
  | nil => rfl
  | cons entry rest ih =>
    rw [insertAll, insert_eq h]
    exact ih (h.insert entry.1 entry.2)

/-- In a dictionary with different keys, the index leads to the entry of each key. -/
theorem get_eq (hkeys : (entries.map Prod.fst).Nodup) (key : String) :
    get entries key = some (entries.get? key) := by
  have hlists := Dict.ofList_lists hkeys
  rw [get, lookup_eq hlists.wellIndexed, hlists.toList_eq]
  rfl

theorem isWritable_of_decode {data : Bytes} {v : Value}
    (h : Failure.ofBencode (Bencode.decode data) = .ok v) : v.IsWritable := by
  cases hread : Bencode.decode data with
  | error e =>
    rw [hread] at h
    cases h
  | ok read =>
    rw [hread] at h
    cases h
    exact (decode_eq_ok_iff.mp hread).2.isWritable

/-! ## The extension handshake -/

/-- The handshake that the entries of a dictionary make up.  Entries without a known meaning
go into a dictionary of their own. -/
def handshakeOfEntries (entries : Entries) : Option (Except Failure ExtensionHandshake) :=
  andThen (some (ExtensionHandshake.ofEntries entries)) fun handshake => do
    let extra ← insertAll ∅ handshake.extra
    return .ok { handshake with extra := extra.toList }

/-- The extension handshake that a payload carries. -/
def decodeExtensionHandshake (payload : Bytes) : Option (Except Failure ExtensionHandshake) :=
  andThen ((decode payload).map Failure.ofBencode) fun
    | .dict entries => handshakeOfEntries entries
    | _ => some (.error (.extension .notADictionary))

theorem extra_of_ofEntries {handshake : ExtensionHandshake}
    (h : ExtensionHandshake.ofEntries entries = .ok handshake) :
    handshake.extra = entries.filter fun e => !ExtensionHandshake.knownKeys.contains e.1 := by
  rw [ExtensionHandshake.ofEntries] at h
  split at h
  all_goals
    obtain ⟨ids, -, h⟩ := bind_eq_ok_iff.mp h
    obtain rfl := Except.ok.inj h
    rfl

theorem handshakeOfEntries_eq (hkeys : (entries.map Prod.fst).Nodup) :
    handshakeOfEntries entries = some (ExtensionHandshake.ofEntries entries) := by
  have hanswer : handshakeOfEntries entries =
      some (ExtensionHandshake.ofEntries entries >>= .ok) := by
    refine andThen_eq rfl fun handshake hhandshake => ?_
    have hdistinct : (handshake.extra.map Prod.fst).Nodup := by
      rw [extra_of_ofEntries hhandshake]
      exact hkeys.sublist (List.filter_sublist.map _)
    have hlists := Dict.lists_empty.insertAll hdistinct
    have hextra := insertAll_eq Dict.lists_empty.wellIndexed handshake.extra
    change (insertAll Dict.empty handshake.extra).bind _ = _
    rw [hextra, Option.bind_some, hlists.toList_eq]
    rfl
  rw [hanswer]
  cases ExtensionHandshake.ofEntries entries <;> rfl

theorem decodeExtensionHandshake_eq {payload : Bytes} (h : payload.length < 2 ^ 64) :
    decodeExtensionHandshake payload = some (ExtensionHandshake.decode payload) := by
  refine andThen_eq (by rw [decode_eq h]; rfl) fun value hvalue => ?_
  cases value with
  | dict entries => exact handshakeOfEntries_eq (isWritable_of_decode hvalue).1
  | _ => rfl

/-! ## Messages about metadata -/

/-- What a dictionary holds under a key that it must have. -/
def requireKey (entries : Entries) (key : String) : Option (Except Failure Value) := do
  match ← get entries key with
  | some value => return .ok value
  | none => return .error (.extension (.missingKey key))

/-- The type under the key for it. -/
def readType (entries : Entries) : Option (Except Failure MetadataMessageType) :=
  andThen (requireKey entries "msg_type") fun value =>
    andThen (some (Failure.ofBencode value.toUInt8)) fun byte =>
      match MetadataMessageType.ofByte? byte with
      | some type => some (.ok type)
      | none => some (.error (.extension (.unknownMessageType byte)))

/-- The size of the metadata, if the message has it. -/
def readTotalSize (entries : Entries) : Option (Except Failure (Option UInt32)) := do
  match ← get entries "total_size" with
  | none => return .ok none
  | some value => return (Failure.ofBencode value.toUInt32).map some

/-- The message that a dictionary makes up with what stands behind it in the payload.  Only a
data message takes the bytes. -/
def messageOfEntries (entries : Entries) (payload : Bytes) (stop : Nat) :
    Option (Except Failure MetadataMessage) :=
  andThen (readType entries) fun type =>
    andThen (requireKey entries "piece") fun value =>
      andThen (some (Failure.ofBencode value.toUInt32)) fun piece =>
        andThen (readTotalSize entries) fun totalSize =>
          if type = .data then
            (slice payload stop payload.length).map fun data =>
              .ok { type, piece, totalSize, data := some data }
          else some (.ok { type, piece, totalSize, data := none })

/-- The message about metadata that a payload carries. -/
def decodeMetadataMessage (payload : Bytes) : Option (Except Failure MetadataMessage) :=
  andThen ((decodePrefix payload).map Failure.ofBencode) fun
    | (.dict entries, stop) => messageOfEntries entries payload stop
    | _ => some (.error (.extension .notADictionary))

theorem requireKey_eq (hkeys : (entries.map Prod.fst).Nodup) (key : String) :
    requireKey entries key = some (MetadataMessage.require entries key) := by
  rw [requireKey, get_eq hkeys, MetadataMessage.require]
  cases entries.get? key <;> rfl

theorem readType_eq (hkeys : (entries.map Prod.fst).Nodup) :
    readType entries = some (MetadataMessage.readType entries) := by
  refine andThen_eq (requireKey_eq hkeys "msg_type") fun value _ => ?_
  refine andThen_eq rfl fun byte _ => ?_
  cases MetadataMessageType.ofByte? byte <;> rfl

theorem readTotalSize_eq (hkeys : (entries.map Prod.fst).Nodup) :
    readTotalSize entries = some (match entries.get? "total_size" with
      | none => .ok none
      | some value => (Failure.ofBencode value.toUInt32).map some) := by
  rw [readTotalSize, get_eq hkeys]
  cases entries.get? "total_size" <;> rfl

theorem messageOfEntries_eq (hkeys : (entries.map Prod.fst).Nodup) {payload : Bytes} {stop : Nat}
    (hstop : stop ≤ payload.length) :
    messageOfEntries entries payload stop =
      some (MetadataMessage.ofEntries entries (payload.drop stop)) := by
  refine andThen_eq (readType_eq hkeys) fun type _ => ?_
  refine andThen_eq (requireKey_eq hkeys "piece") fun value _ => ?_
  refine andThen_eq rfl fun piece _ => ?_
  have hdata : ∀ totalSize,
      (if type = .data then
        (slice payload stop payload.length).map fun data =>
          (.ok ⟨type, piece, totalSize, some data⟩ : Except Failure MetadataMessage)
      else some (.ok ⟨type, piece, totalSize, none⟩)) =
        some (.ok ⟨type, piece, totalSize,
          if type = .data then some (payload.drop stop) else none⟩) := by
    intro totalSize
    rw [slice_end hstop]
    split <;> rfl
  rw [andThen_eq (readTotalSize_eq hkeys) fun totalSize _ => hdata totalSize]
  cases entries.get? "total_size" <;> rfl

theorem decodeMetadataMessage_eq {payload : Bytes} (h : payload.length < 2 ^ 64) :
    decodeMetadataMessage payload = some (MetadataMessage.decode payload) := by
  rw [decodeMetadataMessage, decodePrefix_eq h, Bencode.decodePrefix, MetadataMessage.decode]
  cases hread : Value.read payload with
  | error e => rfl
  | ok read =>
    obtain ⟨value, rest⟩ := read
    obtain ⟨text, hspells, -, hinput⟩ := read_eq_ok_iff.mp hread
    have hrest : payload.drop (payload.length - rest.length) = rest :=
      drop_of_suffix ⟨text, hinput.symm⟩
    cases value with
    | dict entries =>
      have hmessage := messageOfEntries_eq hspells.isWritable.1
        (Nat.sub_le payload.length rest.length)
      rw [hrest] at hmessage
      exact hmessage
    | _ => rfl

/-! ## Messages of the peer exchange -/

/-- The IPv4 address that a compact record of six bytes stands for. -/
def address4 (record : Bytes) : Option Address := do
  let host := #v[← record[0]?, ← record[1]?, ← record[2]?, ← record[3]?]
  return ⟨.v4 host, Bytes.word16 (← record[4]?) (← record[5]?)⟩

/-- The IPv6 address that a compact record of eighteen bytes stands for. -/
def address6 (record : Bytes) : Option Address := do
  let host ← Bytes.toVector? 16 (← slice record 0 16)
  return ⟨.v6 host, Bytes.word16 (← record[16]?) (← record[17]?)⟩

/-- The IPv4 addresses in a run of compact records. -/
def list4 (bytes : Bytes) : Option (List Address) :=
  (Bytes.records 6 bytes).mapM fun record => address4 record.toList

/-- The IPv6 addresses in a run of compact records. -/
def list6 (bytes : Bytes) : Option (List Address) :=
  (Bytes.records 18 bytes).mapM fun record => address6 record.toList

/-- The byte string under a key.  Anything else counts as empty. -/
def field (entries : Entries) (key : String) : Option Bytes := do
  return ((← get entries key).bind Value.bytes?).getD []

/-- The message that the entries of a dictionary make up. -/
def exchangeOfEntries (entries : Entries) : Option PeerExchange := do
  let added ← list4 (← field entries "added")
  let added6 ← list6 (← field entries "added6")
  return {
    added := PeerExchange.withFlags added (← field entries "added.f")
    added6 := PeerExchange.withFlags added6 (← field entries "added6.f")
    dropped := ← list4 (← field entries "dropped")
    dropped6 := ← list6 (← field entries "dropped6") }

/-- The message of the peer exchange that a payload carries. -/
def decodePeerExchange (payload : Bytes) : Option (Except Failure PeerExchange) :=
  andThen ((decode payload).map Failure.ofBencode) fun
    | .dict entries => (exchangeOfEntries entries).map .ok
    | _ => some (.error (.extension .notADictionary))

theorem address4_eq (record : Vector UInt8 6) :
    address4 record.toList = some (Address.ofRecord4 record) := by
  simp [address4, Address.ofRecord4]

theorem address6_eq (record : Vector UInt8 18) :
    address6 record.toList = some (Address.ofRecord6 record) := by
  have hslice : slice record.toList 0 16 = some (record.toList.take 16) :=
    slice_eq (by decide) (by simp)
  have hhost : Bytes.toVector? 16 (record.toList.take 16) = some (record.take 16) := by
    rw [Bytes.toVector?, dif_pos (by simp)]
    congr 1
    obtain ⟨⟨bytes⟩, hlength⟩ := record
    simp [Vector.extract, Vector.toList]
  simp [address6, Address.ofRecord6, hslice, hhost]

/-- Nothing stops on the way through a list if it does not stop at any element. -/
theorem mapM_eq {α β : Type} {f : α → Option β} {g : α → β} (h : ∀ a, f a = some (g a))
    (list : List α) : list.mapM f = some (list.map g) := by
  induction list with
  | nil => rfl
  | cons a rest ih => simp [h a, ih]

theorem list4_eq (bytes : Bytes) : list4 bytes = some (Address.list4 bytes) :=
  mapM_eq address4_eq _

theorem list6_eq (bytes : Bytes) : list6 bytes = some (Address.list6 bytes) :=
  mapM_eq address6_eq _

theorem field_eq (hkeys : (entries.map Prod.fst).Nodup) (key : String) :
    field entries key = some (PeerExchange.field entries key) := by
  rw [field, get_eq hkeys]
  rfl

theorem exchangeOfEntries_eq (hkeys : (entries.map Prod.fst).Nodup) :
    exchangeOfEntries entries = some (PeerExchange.ofEntries entries) := by
  simp [exchangeOfEntries, field_eq hkeys, list4_eq, list6_eq, PeerExchange.ofEntries]

theorem decodePeerExchange_eq {payload : Bytes} (h : payload.length < 2 ^ 64) :
    decodePeerExchange payload = some (PeerExchange.decode payload) := by
  refine andThen_eq (by rw [decode_eq h]; rfl) fun value hvalue => ?_
  cases value with
  | dict entries =>
    have hentries := exchangeOfEntries_eq (isWritable_of_decode hvalue).1
    exact congrArg (Option.map Except.ok) hentries
  | _ => rfl

/-! ### How many peers a message names -/

theorem length_records_le {n : Nat} (hn : 0 < n) (bytes : Bytes) :
    n * (Bytes.records n bytes).length ≤ bytes.length := by
  fun_induction Bytes.records n bytes with
  | case1 bytes _ hnone => exact Nat.zero_le _
  | case2 bytes _ record rest hfield ih =>
    have hbytes := Bytes.eq_of_field? hfield
    have hlength : bytes.length = n + rest.length := by
      rw [hbytes, List.length_append, Vector.length_toList]
    rw [List.length_cons, Nat.mul_succ]
    omega
  | case3 bytes hzero => exact absurd hn hzero

theorem length_withFlags (addresses : List Address) (flags : Bytes) :
    (PeerExchange.withFlags addresses flags).length = addresses.length := by
  fun_induction PeerExchange.withFlags addresses flags with
  | case1 => rfl
  | case2 address rest ih => rw [List.length_cons, List.length_cons, ih]
  | case3 address rest byte flags ih => rw [List.length_cons, List.length_cons, ih]

theorem length_field_lt (h : EntriesWritable entries) (key : String) :
    (PeerExchange.field entries key).length < 2 ^ 64 := by
  rw [PeerExchange.field]
  cases hvalue : entries.get? key with
  | none => exact Nat.two_pow_pos 64
  | some value =>
    cases value with
    | bytes content =>
      obtain ⟨front, back, hsplit, -⟩ := List.lookup_eq_some_iff.mp hvalue
      have hmem : (Bytes.ofText key, Value.bytes content) ∈ entries := by simp [hsplit]
      exact (entriesWritable_iff.mp h _ hmem).2
    | _ => exact Nat.two_pow_pos 64

/-- The peers that joined can be counted over both families, and so can those that left. -/
theorem length_of_decode {payload : Bytes} {message : PeerExchange}
    (h : PeerExchange.decode payload = .ok message) :
    message.added.length + message.added6.length < 2 ^ 64 ∧
      message.dropped.length + message.dropped6.length < 2 ^ 64 := by
  obtain ⟨value, hvalue, h⟩ := bind_eq_ok_iff.mp h
  cases value with
  | dict entries =>
    obtain rfl := Except.ok.inj h
    have hwritable := (isWritable_of_decode hvalue).2
    have h4 (key : String) :
        6 * (Address.list4 (PeerExchange.field entries key)).length < 2 ^ 64 := by
      rw [Address.list4, List.length_map]
      exact Nat.lt_of_le_of_lt (length_records_le (by decide) _) (length_field_lt hwritable key)
    have h6 (key : String) :
        18 * (Address.list6 (PeerExchange.field entries key)).length < 2 ^ 64 := by
      rw [Address.list6, List.length_map]
      exact Nat.lt_of_le_of_lt (length_records_le (by decide) _) (length_field_lt hwritable key)
    have hadded := h4 "added"
    have hadded6 := h6 "added6"
    have hdropped := h4 "dropped"
    have hdropped6 := h6 "dropped6"
    simp only [PeerExchange.ofEntries, length_withFlags]
    omega
  | _ => cases h

end Guarded
end PeerLink
