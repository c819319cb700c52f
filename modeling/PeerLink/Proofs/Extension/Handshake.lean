import PeerLink.Extension.IdTable
import PeerLink.Proofs.Bencode.Dict
import PeerLink.Proofs.Bencode.RoundTrip
import PeerLink.Proofs.Except

/-!
# What the peer reads from an extension handshake

One side writes a dictionary, and the other side takes its ids from it.  The
main statements are `exists_decode_encode`, that the ids arrive as they were
written, and `id?_update`, that the other side's table holds them afterwards.
-/

namespace PeerLink

open Bencode

namespace ExtensionHandshake

/-! ## The entries of a handshake -/

/-- The table of ids as the entries that it consists of. -/
def tableEntries (ids : List (String × UInt8)) : Entries :=
  ids.map fun (name, id) => (Bytes.ofText name, .int (Int64.ofNat id.toNat))

theorem keys_tableEntries (ids : List (String × UInt8)) :
    (tableEntries ids).map Prod.fst = (ids.map Prod.fst).map Bytes.ofText := by
  simp [tableEntries, Function.comp_def]

theorem nodup_keys_tableEntries {ids : List (String × UInt8)}
    (hnames : (ids.map Prod.fst).Nodup) : ((tableEntries ids).map Prod.fst).Nodup := by
  rw [keys_tableEntries]
  exact hnames.map Bytes.ofText_injective

/-- The entries with a known meaning that a handshake has, in order. -/
def knownList (h : ExtensionHandshake) : Entries :=
  Entries.ofOption "m" (some (.dict (tableEntries h.ids))) ++
    Entries.ofOption "v" (h.client.map .text) ++
    Entries.ofOption "yourip" (h.yourIp.map .bytes) ++
    Entries.ofOption "reqq" (h.requestQueue.map .int) ++
    Entries.ofOption "metadata_size" (h.metadataSize.map .int)

theorem knownEntries_lists {h : ExtensionHandshake} (hnames : (h.ids.map Prod.fst).Nodup) :
    h.knownEntries.Lists h.knownList := by
  have htable : (table h.ids).toList = tableEntries h.ids :=
    (Dict.ofList_lists (nodup_keys_tableEntries hnames)).toList_eq
  rw [knownEntries, htable]
  apply Dict.Lists.insertSome
  · apply Dict.Lists.insertSome
    · apply Dict.Lists.insertSome
      · apply Dict.Lists.insertSome
        · exact Dict.lists_empty.insert (by simp) _
        · exact Entries.not_mem_keys_of_get? (by simp)
      · exact Entries.not_mem_keys_of_get? (by simp [Entries.get?_append])
    · exact Entries.not_mem_keys_of_get? (by simp [Entries.get?_append])
  · exact Entries.not_mem_keys_of_get? (by simp [Entries.get?_append])

/-- A handshake is written with its known entries first, and with those of the
others that have a new key. -/
theorem toDict_lists {h : ExtensionHandshake} (hnames : (h.ids.map Prod.fst).Nodup) :
    ∃ kept, kept.Sublist h.extra ∧ h.toDict.Lists (h.knownList ++ kept) :=
  (knownEntries_lists hnames).insertNew h.extra

theorem get?_knownList_append (h : ExtensionHandshake) (kept : Entries) :
    (h.knownList ++ kept).get? "m" = some (.dict (tableEntries h.ids)) := by
  simp [knownList, Entries.get?_append]

/-! ## Handshakes that can be written -/

/-- All byte strings of a handshake have a length of 64 bits, and its further
entries are such as dictionaries hold. -/
structure Fits (h : ExtensionHandshake) : Prop where
  ids : ∀ entry ∈ h.ids, (Bytes.ofText entry.1).length < UInt64.size
  client : ∀ text ∈ h.client, (Bytes.ofText text).length < UInt64.size
  yourIp : ∀ address ∈ h.yourIp, address.length < UInt64.size
  extra : EntriesWritable h.extra

theorem Fits.tableEntries_writable {h : ExtensionHandshake} (hfits : h.Fits) :
    EntriesWritable (tableEntries h.ids) := by
  rw [entriesWritable_iff]
  intro entry hentry
  obtain ⟨⟨name, id⟩, hid, rfl⟩ := List.mem_map.mp hentry
  exact ⟨hfits.ids _ hid, trivial⟩

theorem height_tableEntries_le (ids : List (String × UInt8)) :
    (Value.dict (tableEntries ids)).height ≤ 1 := by
  rw [Value.height, entriesHeight_le_iff]
  intro entry hentry
  obtain ⟨⟨name, id⟩, -, rfl⟩ := List.mem_map.mp hentry
  exact Nat.zero_lt_one

/-- The known entries of a handshake are written, and nest at most one deep. -/
theorem Fits.knownList_writable {h : ExtensionHandshake} (hfits : h.Fits)
    (hnames : (h.ids.map Prod.fst).Nodup) {entry : Bytes × Value} (hentry : entry ∈ h.knownList) :
    (entry.1.length < UInt64.size ∧ entry.2.IsWritable) ∧ entry.2.height ≤ 1 := by
  have hkeys : ∀ key ∈ knownKeys, key.length < UInt64.size := by decide
  simp only [knownList, List.mem_append, Entries.mem_ofOption] at hentry
  rcases hentry with (((⟨_, hv, rfl⟩ | ⟨_, hv, rfl⟩) | ⟨_, hv, rfl⟩) | ⟨_, hv, rfl⟩) | ⟨_, hv, rfl⟩
  · obtain rfl := Option.some.inj hv
    exact ⟨⟨hkeys _ (by simp [knownKeys]), nodup_keys_tableEntries hnames,
      hfits.tableEntries_writable⟩, height_tableEntries_le h.ids⟩
  · obtain ⟨text, htext, rfl⟩ := Option.map_eq_some_iff.mp hv
    exact ⟨⟨hkeys _ (by simp [knownKeys]), hfits.client text htext⟩, Nat.zero_le _⟩
  · obtain ⟨address, haddress, rfl⟩ := Option.map_eq_some_iff.mp hv
    exact ⟨⟨hkeys _ (by simp [knownKeys]), hfits.yourIp address haddress⟩, Nat.zero_le _⟩
  · obtain ⟨count, -, rfl⟩ := Option.map_eq_some_iff.mp hv
    exact ⟨⟨hkeys _ (by simp [knownKeys]), trivial⟩, Nat.zero_le _⟩
  · obtain ⟨size, -, rfl⟩ := Option.map_eq_some_iff.mp hv
    exact ⟨⟨hkeys _ (by simp [knownKeys]), trivial⟩, Nat.zero_le _⟩

/-! ## The ids that arrive -/

theorem readIds_tableEntries (ids : List (String × UInt8)) :
    readIds (tableEntries ids) = .ok ids := by
  induction ids with
  | nil => rfl
  | cons entry rest ih =>
    obtain ⟨name, id⟩ := entry
    rw [tableEntries, List.map_cons, ← tableEntries, readIds, Bytes.toText?_ofText]
    simp only [toUInt8_ofNat, ih]
    rfl

theorem ofEntries_of_table {entries : Entries} {ids : List (String × UInt8)}
    (htable : entries.get? "m" = some (.dict (tableEntries ids))) :
    ofEntries entries = .ok {
      ids
      client := (entries.get? "v").bind Value.text?
      yourIp := (entries.get? "yourip").bind Value.bytes?
      requestQueue := (entries.get? "reqq").bind Value.int?
      metadataSize := (entries.get? "metadata_size").bind Value.int?
      extra := entries.filter fun e => !knownKeys.contains e.1 } := by
  rw [ofEntries, htable]
  simp only [readIds_tableEntries]
  rfl

/-- What a handshake is written with can be written, and nests less deep than is read. -/
theorem Fits.entry_writable {h : ExtensionHandshake} (hfits : h.Fits)
    (hnames : (h.ids.map Prod.fst).Nodup) (hdepth : ∀ entry ∈ h.extra, entry.2.height ≤ 63)
    {entry : Bytes × Value} (hentry : entry ∈ h.knownList ++ h.extra) :
    (entry.1.length < UInt64.size ∧ entry.2.IsWritable) ∧ entry.2.height < maxDepth := by
  rcases List.mem_append.mp hentry with hknown | hextra
  · obtain ⟨hwritable, hheight⟩ := hfits.knownList_writable hnames hknown
    exact ⟨hwritable, Nat.lt_of_le_of_lt hheight (by decide)⟩
  · exact ⟨entriesWritable_iff.mp hfits.extra entry hextra,
      Nat.lt_succ_of_le (hdepth entry hextra)⟩

/-- The peer reads the entries that were written, as long as they do not nest too deep. -/
theorem decode_encode_of_lists {h : ExtensionHandshake} (hnames : (h.ids.map Prod.fst).Nodup)
    (hfits : h.Fits) (hdepth : ∀ entry ∈ h.extra, entry.2.height ≤ 63) {kept : Entries}
    (hkept : kept.Sublist h.extra) (hlists : h.toDict.Lists (h.knownList ++ kept)) :
    decode h.encode = ofEntries (h.knownList ++ kept) := by
  have hentries : ∀ entry ∈ h.knownList ++ kept,
      (entry.1.length < UInt64.size ∧ entry.2.IsWritable) ∧ entry.2.height < maxDepth :=
    fun entry hentry => hfits.entry_writable hnames hdepth
      ((List.Sublist.append_left hkept _).subset hentry)
  obtain ⟨hwritable, hheight⟩ := isWritable_dict hlists.nodup_keys hentries
  rw [decode, encode, hlists.toList_eq, Bencode.decode_encode hwritable hheight]
  rfl

/-- The peer reads the ids that were written, whatever else the handshake holds, as
long as that does not nest too deep. -/
theorem exists_decode_encode {h : ExtensionHandshake} (hnames : (h.ids.map Prod.fst).Nodup)
    (hfits : h.Fits) (hdepth : ∀ entry ∈ h.extra, entry.2.height ≤ 63) :
    ∃ heard, decode h.encode = .ok heard ∧ heard.ids = h.ids := by
  obtain ⟨kept, hkept, hlists⟩ := toDict_lists hnames
  have hdecode := decode_encode_of_lists hnames hfits hdepth hkept hlists
  rw [ofEntries_of_table (get?_knownList_append h kept)] at hdecode
  exact ⟨_, hdecode, rfl⟩

end ExtensionHandshake

/-! ## The table of the other side -/

namespace IdTable

/-- Where names are distinct, a name has the id that stands next to it. -/
theorem id?_eq_some_iff {table : IdTable} (hnames : (table.map Prod.fst).Nodup) {name : String}
    {id : UInt8} : table.id? name = some id ↔ (name, id) ∈ table := by
  rw [id?, List.lookup_eq_some_iff]
  constructor
  · rintro ⟨front, back, rfl, -⟩
    exact List.mem_append_right front List.mem_cons_self
  · intro hmem
    obtain ⟨front, back, rfl⟩ := List.append_of_mem hmem
    refine ⟨front, back, rfl, ?_⟩
    intro entry hentry
    rw [List.map_append, List.map_cons] at hnames
    have hne := (List.nodup_append.mp hnames).2.2 entry.1 (List.mem_map_of_mem hentry) name
      List.mem_cons_self
    exact bne_iff_ne.mpr hne.symm

theorem id?_update_of_not_mem {ids : List (String × UInt8)} {name : String}
    (hname : name ∉ ids.map Prod.fst) (table : IdTable) :
    (table.update ids).id? name = table.id? name := by
  induction ids generalizing table with
  | nil => rfl
  | cons entry rest ih =>
    rw [List.map_cons, List.mem_cons, not_or] at hname
    exact (ih hname.2 _).trans (id?_assign_of_ne table entry.2 hname.1)

/-- A name that the handshake lists has the id listed there, unless that is 0, and
any other name keeps its id. -/
theorem id?_update {ids : List (String × UInt8)} (hnames : (ids.map Prod.fst).Nodup)
    (table : IdTable) (name : String) :
    (table.update ids).id? name =
      match ids.lookup name with
      | some id => if id = 0 then none else some id
      | none => table.id? name := by
  induction ids generalizing table with
  | nil => rfl
  | cons entry rest ih =>
    obtain ⟨listed, id⟩ := entry
    rw [List.map_cons, List.nodup_cons] at hnames
    by_cases hname : name = listed
    · subst hname
      rw [List.lookup_cons_self]
      exact (id?_update_of_not_mem hnames.1 _).trans (id?_assign_self table name id)
    · have hlisted : (name == listed) = false := beq_eq_false_iff_ne.mpr hname
      have hrest := ih hnames.2 (table.assign listed id)
      rw [id?_assign_of_ne table id hname] at hrest
      rw [List.lookup_cons, hlisted]
      exact hrest

end IdTable
end PeerLink
