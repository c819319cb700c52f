import PeerLink.Extension.PeerExchange
import PeerLink.Proofs.Address
import PeerLink.Proofs.Bencode.Dict
import PeerLink.Proofs.Bencode.RoundTrip
import PeerLink.Proofs.Except

/-!
# Messages of the peer exchange there and back

A message is packed into up to six byte strings: compact addresses for four lists of peers, and
flags for two of them.  Every dictionary is read as some message, whatever stands under these
keys.  `IsReceivable` says which messages can arrive, and the main statement
`decode_encode_iff_isReceivable` that these are the ones that are read back as they were
written.
-/

namespace PeerLink

open Bencode

namespace PeerExchange

/-! ## Messages that can arrive -/

/-- Addresses stand in the lists of their family. -/
structure SeparatesFamilies (message : PeerExchange) : Prop where
  added : ∀ peer ∈ message.added, peer.address.host.isV4 = true
  added6 : ∀ peer ∈ message.added6, peer.address.host.isV4 = false
  dropped : ∀ address ∈ message.dropped, address.host.isV4 = true
  dropped6 : ∀ address ∈ message.dropped6, address.host.isV4 = false

/-- The lists are so short that the lengths of their compact forms have 64 bits. -/
structure Fits (message : PeerExchange) : Prop where
  added : 6 * message.added.length < UInt64.size
  added6 : 18 * message.added6.length < UInt64.size
  dropped : 6 * message.dropped.length < UInt64.size
  dropped6 : 18 * message.dropped6.length < UInt64.size

/-- A message that can arrive. -/
structure IsReceivable (message : PeerExchange) : Prop where
  separates : message.SeparatesFamilies
  fits : message.Fits

/-! ## Messages that are built peer by peer -/

/-- A note that a peer joined or left. -/
inductive Edit where
  | add (peer : ExchangedPeer)
  | drop (address : Address)

/-- The message with one more note. -/
def edited (message : PeerExchange) : Edit → PeerExchange
  | .add peer => message.add peer
  | .drop address => message.drop address

/-- The message that some notes make up, oldest first. -/
def ofEdits (edits : List Edit) : PeerExchange := edits.foldl edited empty

/-- The number of peers in a message. -/
def size (message : PeerExchange) : Nat :=
  message.added.length + message.added6.length + message.dropped.length + message.dropped6.length

theorem size_edited (message : PeerExchange) (edit : Edit) :
    (message.edited edit).size = message.size + 1 := by
  cases edit with
  | add peer =>
    rw [edited, add]
    split
    · simp only [size, List.length_append, List.length_singleton]
      omega
    · simp only [size, List.length_append, List.length_singleton]
      omega
  | drop address =>
    rw [edited, drop]
    split
    · simp only [size, List.length_append, List.length_singleton]
      omega
    · simp only [size, List.length_append, List.length_singleton]
      omega

theorem SeparatesFamilies.edited {message : PeerExchange} (h : message.SeparatesFamilies)
    (edit : Edit) : (message.edited edit).SeparatesFamilies := by
  cases edit with
  | add peer =>
    rw [PeerExchange.edited, add]
    split
    · next hv4 =>
      exact { h with added := List.forall_mem_append.mpr ⟨h.added, by simpa using hv4⟩ }
    · next hv6 =>
      exact { h with added6 := List.forall_mem_append.mpr ⟨h.added6, by simpa using hv6⟩ }
  | drop address =>
    rw [PeerExchange.edited, drop]
    split
    · next hv4 =>
      exact { h with dropped := List.forall_mem_append.mpr ⟨h.dropped, by simpa using hv4⟩ }
    · next hv6 =>
      exact { h with dropped6 := List.forall_mem_append.mpr ⟨h.dropped6, by simpa using hv6⟩ }

theorem size_ofEdits (edits : List Edit) : (ofEdits edits).size = edits.length := by
  induction edits using List.reverseRecOn with
  | nil => rfl
  | append_singleton edits edit ih =>
    rw [ofEdits, List.foldl_append, ← ofEdits, List.foldl_cons, List.foldl_nil, size_edited, ih,
      List.length_append, List.length_singleton]

theorem separatesFamilies_ofEdits (edits : List Edit) : (ofEdits edits).SeparatesFamilies := by
  induction edits using List.reverseRecOn with
  | nil =>
    constructor
    all_goals exact List.forall_mem_nil _
  | append_singleton edits edit ih =>
    rw [ofEdits, List.foldl_append, ← ofEdits]
    exact ih.edited edit

theorem isReceivable_ofEdits {edits : List Edit} (h : 18 * edits.length < UInt64.size) :
    (ofEdits edits).IsReceivable := by
  refine ⟨separatesFamilies_ofEdits edits, ?_⟩
  rw [← size_ofEdits, size] at h
  constructor
  all_goals omega

/-! ## What was written is read -/

/-- The bytes that stand for a list.  None stand for an empty one. -/
def part? {α : Type} (write : List α → Bytes) (items : List α) : Option Value :=
  if items.isEmpty then none else some (.bytes (write items))

/-- The compact addresses of peers. -/
def compactPeers (peers : List ExchangedPeer) : Bytes := compact (peers.map (·.address))

/-- The flag bytes of peers. -/
def flagBytes (peers : List ExchangedPeer) : Bytes := peers.map (·.flags.toByte)

/-- The entries of a message, in order. -/
def entries (message : PeerExchange) : Entries :=
  Entries.ofOption "added" (part? compactPeers message.added) ++
    Entries.ofOption "added.f" (part? flagBytes message.added) ++
    Entries.ofOption "added6" (part? compactPeers message.added6) ++
    Entries.ofOption "added6.f" (part? flagBytes message.added6) ++
    Entries.ofOption "dropped" (part? compact message.dropped) ++
    Entries.ofOption "dropped6" (part? compact message.dropped6)

theorem insertAddresses_eq (d : Dict) (key : String) (addresses : List Address) :
    insertAddresses d key addresses = d.insertSome key (part? compact addresses) := by
  rw [insertAddresses, part?]
  split
  · rfl
  · rfl

theorem insertPeers_eq (d : Dict) (key flagsKey : String) (peers : List ExchangedPeer) :
    insertPeers d key flagsKey peers =
      (d.insertSome key (part? compactPeers peers)).insertSome flagsKey
        (part? flagBytes peers) := by
  rw [insertPeers, insertAddresses_eq, part?, part?, part?, List.isEmpty_map]
  split
  · rfl
  · rfl

theorem toDict_lists (message : PeerExchange) : message.toDict.Lists message.entries := by
  simp only [toDict, insertPeers_eq, insertAddresses_eq]
  apply Dict.Lists.insertSome
  · apply Dict.Lists.insertSome
    · apply Dict.Lists.insertSome
      · apply Dict.Lists.insertSome
        · apply Dict.Lists.insertSome
          · exact Dict.lists_empty.insertSome (by simp) _
          · exact Entries.not_mem_keys_of_get? (by simp)
        · exact Entries.not_mem_keys_of_get? (by simp [Entries.get?_append])
      · exact Entries.not_mem_keys_of_get? (by simp [Entries.get?_append])
    · exact Entries.not_mem_keys_of_get? (by simp [Entries.get?_append])
  · exact Entries.not_mem_keys_of_get? (by simp [Entries.get?_append])

/-- What stands under a key for a list is found there, also if it was left out. -/
theorem getD_bytes?_part? {α : Type} {write : List α → Bytes} (hnil : write [] = [])
    (items : List α) : (((part? write items).bind Value.bytes?).getD []) = write items := by
  cases items with
  | nil => exact hnil.symm
  | cons item rest => rfl

theorem withFlags_map (peers : List ExchangedPeer) :
    withFlags (peers.map (·.address)) (flagBytes peers) = peers := by
  induction peers with
  | nil => rfl
  | cons peer rest ih =>
    change ⟨peer.address, .ofByte peer.flags.toByte⟩ ::
      withFlags (rest.map (·.address)) (flagBytes rest) = _
    rw [PeerFlags.ofByte_toByte, ih]

theorem list4_compact {addresses : List Address}
    (h : ∀ address ∈ addresses, address.host.isV4 = true) :
    Address.list4 (compact addresses) = addresses :=
  Address.isFamily4.records_compact h

theorem list6_compact {addresses : List Address}
    (h : ∀ address ∈ addresses, address.host.isV4 = false) :
    Address.list6 (compact addresses) = addresses :=
  Address.isFamily6.records_compact h

theorem SeparatesFamilies.ofEntries_entries {message : PeerExchange}
    (h : message.SeparatesFamilies) : ofEntries message.entries = message := by
  have hpart {α : Type} (write : List α → Bytes) (hnil : write [] = []) :=
    getD_bytes?_part? hnil
  have hadded : field message.entries "added" = compactPeers message.added := by
    simp [field, entries, Entries.get?_append, hpart compactPeers rfl]
  have haddedFlags : field message.entries "added.f" = flagBytes message.added := by
    simp [field, entries, Entries.get?_append, hpart flagBytes rfl]
  have hadded6 : field message.entries "added6" = compactPeers message.added6 := by
    simp [field, entries, Entries.get?_append, hpart compactPeers rfl]
  have hadded6Flags : field message.entries "added6.f" = flagBytes message.added6 := by
    simp [field, entries, Entries.get?_append, hpart flagBytes rfl]
  have hdropped : field message.entries "dropped" = compact message.dropped := by
    simp [field, entries, Entries.get?_append, hpart compact rfl]
  have hdropped6 : field message.entries "dropped6" = compact message.dropped6 := by
    simp [field, entries, Entries.get?_append, hpart compact rfl]
  rw [ofEntries, hadded, haddedFlags, hadded6, hadded6Flags, hdropped, hdropped6, compactPeers,
    compactPeers, list4_compact (List.forall_mem_map.mpr h.added),
    list6_compact (List.forall_mem_map.mpr h.added6), list4_compact h.dropped,
    list6_compact h.dropped6, withFlags_map, withFlags_map]

theorem eq_of_part? {α : Type} {write : List α → Bytes} {items : List α} {v : Value}
    (h : part? write items = some v) : v = .bytes (write items) := by
  rw [part?] at h
  split at h
  · cases h
  · exact (Option.some.inj h).symm

section Lengths

variable {n : Nat} {ofRecord : Vector UInt8 n → Address} {isV4 : Bool}
  (h : Address.IsFamily n ofRecord isV4)
include h

theorem length_compact_lt {addresses : List Address}
    (hfamily : ∀ address ∈ addresses, address.host.isV4 = isV4)
    (hfits : n * addresses.length < UInt64.size) : (compact addresses).length < UInt64.size := by
  rw [compact, h.length_flatMap_compact hfamily]
  exact hfits

theorem length_compactPeers_lt {peers : List ExchangedPeer}
    (hfamily : ∀ peer ∈ peers, peer.address.host.isV4 = isV4)
    (hfits : n * peers.length < UInt64.size) :
    (compactPeers peers).length < UInt64.size ∧ (flagBytes peers).length < UInt64.size := by
  constructor
  · apply length_compact_lt h (List.forall_mem_map.mpr hfamily)
    rw [List.length_map]
    exact hfits
  · rw [flagBytes, List.length_map]
    exact Nat.lt_of_le_of_lt (Nat.le_mul_of_pos_left _ h.pos) hfits

end Lengths

/-- The entries of a message are byte strings whose lengths have 64 bits. -/
theorem IsReceivable.entries_areBytes {message : PeerExchange} (h : message.IsReceivable)
    {entry : Bytes × Value} (hentry : entry ∈ message.entries) :
    entry.1.length < UInt64.size ∧
      ∃ content, entry.2 = .bytes content ∧ content.length < UInt64.size := by
  have hkeys : ∀ key ∈ ["added", "added.f", "added6", "added6.f", "dropped", "dropped6"].map
      Bytes.ofText, key.length < UInt64.size := by decide
  obtain ⟨hadded, haddedFlags⟩ :=
    length_compactPeers_lt Address.isFamily4 h.separates.added h.fits.added
  obtain ⟨hadded6, hadded6Flags⟩ :=
    length_compactPeers_lt Address.isFamily6 h.separates.added6 h.fits.added6
  have hdropped := length_compact_lt Address.isFamily4 h.separates.dropped h.fits.dropped
  have hdropped6 := length_compact_lt Address.isFamily6 h.separates.dropped6 h.fits.dropped6
  simp only [entries, List.mem_append, Entries.mem_ofOption] at hentry
  rcases hentry with ((((⟨v, hv, rfl⟩ | ⟨v, hv, rfl⟩) | ⟨v, hv, rfl⟩) | ⟨v, hv, rfl⟩) |
    ⟨v, hv, rfl⟩) | ⟨v, hv, rfl⟩
  · exact ⟨hkeys _ (by simp), _, eq_of_part? hv, hadded⟩
  · exact ⟨hkeys _ (by simp), _, eq_of_part? hv, haddedFlags⟩
  · exact ⟨hkeys _ (by simp), _, eq_of_part? hv, hadded6⟩
  · exact ⟨hkeys _ (by simp), _, eq_of_part? hv, hadded6Flags⟩
  · exact ⟨hkeys _ (by simp), _, eq_of_part? hv, hdropped⟩
  · exact ⟨hkeys _ (by simp), _, eq_of_part? hv, hdropped6⟩

theorem IsReceivable.decode_encode {message : PeerExchange} (h : message.IsReceivable) :
    decode message.encode = .ok message := by
  have hentries : ∀ entry ∈ message.entries,
      (entry.1.length < UInt64.size ∧ entry.2.IsWritable) ∧ entry.2.height < maxDepth := by
    intro entry hentry
    obtain ⟨hkey, content, hcontent, hlength⟩ := h.entries_areBytes hentry
    rw [hcontent]
    exact ⟨⟨hkey, hlength⟩, Nat.zero_lt_succ _⟩
  obtain ⟨hwritable, hheight⟩ := isWritable_dict message.toDict_lists.nodup_keys hentries
  rw [decode, encode, message.toDict_lists.toList_eq, Bencode.decode_encode hwritable hheight]
  exact congrArg Except.ok h.separates.ofEntries_entries

/-! ## What is read can be written -/

/-- What the entries of a dictionary tell: every list holds the addresses in the byte string
under its key, of which a last one that is cut short is left out.  Peers that have a flag byte
have its flags, and the others have none.  What is no byte string counts as an empty one. -/
structure IsToldBy (message : PeerExchange) (entries : Entries) : Prop where
  added : Address.Fill 6 true (field entries "added") (message.added.map (·.address))
  added6 : Address.Fill 18 false (field entries "added6") (message.added6.map (·.address))
  dropped : Address.Fill 6 true (field entries "dropped") message.dropped
  dropped6 : Address.Fill 18 false (field entries "dropped6") message.dropped6
  flags : ∀ (i : Nat) (peer : ExchangedPeer), message.added[i]? = some peer →
    peer.flags = ((field entries "added.f")[i]?.map PeerFlags.ofByte).getD .none
  flags6 : ∀ (i : Nat) (peer : ExchangedPeer), message.added6[i]? = some peer →
    peer.flags = ((field entries "added6.f")[i]?.map PeerFlags.ofByte).getD .none

theorem map_address_withFlags (addresses : List Address) (flags : Bytes) :
    (withFlags addresses flags).map (·.address) = addresses := by
  fun_induction withFlags addresses flags with
  | case1 => rfl
  | case2 address rest ih => rw [List.map_cons, ih]
  | case3 address rest byte bytes ih => rw [List.map_cons, ih]

theorem flags_of_getElem?_withFlags {addresses : List Address} {flags : Bytes} {i : Nat}
    {peer : ExchangedPeer} (h : (withFlags addresses flags)[i]? = some peer) :
    peer.flags = (flags[i]?.map PeerFlags.ofByte).getD .none := by
  fun_induction withFlags addresses flags generalizing i with
  | case1 => cases h
  | case2 address rest ih =>
    cases i with
    | zero =>
      obtain rfl := Option.some.inj h
      rfl
    | succ i =>
      rw [List.getElem?_cons_succ] at h
      simpa using ih h
  | case3 address rest byte bytes ih =>
    cases i with
    | zero =>
      obtain rfl := Option.some.inj h
      rfl
    | succ i =>
      rw [List.getElem?_cons_succ] at h
      exact ih h

theorem ofEntries_isToldBy (entries : Entries) : (ofEntries entries).IsToldBy entries where
  added := by
    rw [ofEntries, map_address_withFlags]
    exact Address.isFamily4.fill_records _
  added6 := by
    rw [ofEntries, map_address_withFlags]
    exact Address.isFamily6.fill_records _
  dropped := Address.isFamily4.fill_records _
  dropped6 := Address.isFamily6.fill_records _
  flags _ _ := flags_of_getElem?_withFlags
  flags6 _ _ := flags_of_getElem?_withFlags

theorem length_field_lt {entries : Entries} (h : EntriesWritable entries) (key : String) :
    (field entries key).length < UInt64.size := by
  rw [field]
  cases hfound : (entries.get? key).bind Value.bytes? with
  | none => decide
  | some content =>
    obtain ⟨v, hv, hcontent⟩ := Option.bind_eq_some_iff.mp hfound
    have hwritable := (entriesWritable_iff.mp h _ (Entries.mem_of_get? hv)).2
    cases v with
    | bytes found =>
      obtain rfl := Option.some.inj hcontent
      exact hwritable
    | _ => cases hcontent

theorem isReceivable_ofEntries {entries : Entries} (h : EntriesWritable entries) :
    (ofEntries entries).IsReceivable := by
  have htold := ofEntries_isToldBy entries
  have hadded := htold.added.length_eq
  have hadded6 := htold.added6.length_eq
  have hdropped := htold.dropped.length_eq
  have hdropped6 := htold.dropped6.length_eq
  have := length_field_lt h "added"
  have := length_field_lt h "added6"
  have := length_field_lt h "dropped"
  have := length_field_lt h "dropped6"
  rw [List.length_map] at hadded hadded6
  constructor
  · constructor
    · exact List.forall_mem_map.mp htold.added.family
    · exact List.forall_mem_map.mp htold.added6.family
    · exact htold.dropped.family
    · exact htold.dropped6.family
  · constructor
    all_goals omega

theorem decode_eq_ok_iff {payload : Bytes} {message : PeerExchange} :
    decode payload = .ok message ↔
      ∃ entries, Bencode.decode payload = .ok (.dict entries) ∧ message = ofEntries entries := by
  rw [decode, bind_eq_ok_iff]
  simp only [Failure.ofBencode_eq_ok_iff]
  constructor
  · rintro ⟨v, hv, hmessage⟩
    cases v with
    | dict entries => exact ⟨entries, hv, (Except.ok.inj hmessage).symm⟩
    | _ => cases hmessage
  · rintro ⟨entries, hentries, rfl⟩
    exact ⟨.dict entries, hentries, rfl⟩

theorem isReceivable_of_decode {payload : Bytes} {message : PeerExchange}
    (h : decode payload = .ok message) : message.IsReceivable := by
  obtain ⟨entries, hentries, rfl⟩ := decode_eq_ok_iff.mp h
  exact isReceivable_ofEntries (Bencode.decode_eq_ok_iff.mp hentries).2.isWritable.2

/-- A message is read back as it was written, with its peers and their flags in order, exactly
if it can arrive: its addresses stand in the lists of their family, and their compact forms
have a length of 64 bits.  That holds of every message that is built peer by peer.  A payload
is read as a message exactly if it is a dictionary, whatever its entries are, and what is
read from it is what the entries tell, can arrive, and is read back too. -/
theorem decode_encode_iff_isReceivable :
    (∀ message : PeerExchange, decode message.encode = .ok message ↔ message.IsReceivable) ∧
    (∀ edits : List Edit, 18 * edits.length < UInt64.size →
      decode (ofEdits edits).encode = .ok (ofEdits edits)) ∧
    (∀ payload, (∃ message, decode payload = .ok message) ↔
      ∃ entries, Bencode.decode payload = .ok (.dict entries)) ∧
    ∀ payload entries, Bencode.decode payload = .ok (.dict entries) →
      ∃ message : PeerExchange, decode payload = .ok message ∧ message.IsToldBy entries ∧
        message.IsReceivable ∧ decode message.encode = .ok message := by
  refine ⟨?_, ?_, ?_, ?_⟩
  · intro message
    exact ⟨isReceivable_of_decode, IsReceivable.decode_encode⟩
  · intro edits hedits
    exact (isReceivable_ofEdits hedits).decode_encode
  · intro payload
    constructor
    · rintro ⟨message, hmessage⟩
      obtain ⟨entries, hentries, -⟩ := decode_eq_ok_iff.mp hmessage
      exact ⟨entries, hentries⟩
    · rintro ⟨entries, hentries⟩
      exact ⟨ofEntries entries, decode_eq_ok_iff.mpr ⟨entries, hentries, rfl⟩⟩
  · intro payload entries hentries
    have hread : decode payload = .ok (ofEntries entries) :=
      decode_eq_ok_iff.mpr ⟨entries, hentries, rfl⟩
    have hreceivable := isReceivable_of_decode hread
    exact ⟨ofEntries entries, hread, ofEntries_isToldBy entries, hreceivable,
      hreceivable.decode_encode⟩

/-- Both lists have bytes left over, the flags of one list are a number and those of the
other too few. -/
theorem decode_encode_iff_isReceivable_of_ragged :
    let payload := Bytes.ofText ("d5:added7:abcdefg7:added.fi7e" ++
      "6:added639:ABCDEFGHIJKLMNOPQRSTUVWXYZABCDEFGHIJKLM8:added6.f1:J2:ut4:junke")
    let message : PeerExchange :=
      { added := [⟨⟨.v4 #v[97, 98, 99, 100], 25958⟩, .none⟩]
        added6 := [
          ⟨⟨.v6 #v[65, 66, 67, 68, 69, 70, 71, 72, 73, 74, 75, 76, 77, 78, 79, 80], 20818⟩,
            ⟨false, true, false, true, false⟩⟩,
          ⟨⟨.v6 #v[83, 84, 85, 86, 87, 88, 89, 90, 65, 66, 67, 68, 69, 70, 71, 72], 18762⟩,
            .none⟩]
        dropped := []
        dropped6 := [] }
    decode payload = .ok message ∧ message.IsReceivable ∧ decode message.encode = .ok message := by
  intro payload message
  obtain ⟨hiff, -, -, hpayloads⟩ := decode_encode_iff_isReceivable
  have hread : decode payload = .ok message := by decide +kernel
  obtain ⟨entries, hentries, -⟩ := decode_eq_ok_iff.mp hread
  obtain ⟨found, hfound, -, hreceivable, -⟩ := hpayloads payload entries hentries
  obtain rfl := Except.ok.inj (hread.symm.trans hfound)
  exact ⟨hread, hreceivable, (hiff message).mpr hreceivable⟩

end PeerExchange
end PeerLink
