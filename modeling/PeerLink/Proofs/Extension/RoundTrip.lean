import PeerLink.Proofs.Extension.Handshake

/-!
# Extension handshakes there and back

A handshake scatters the entries of its dictionary: some have a known meaning, and all
others are kept.  Writing it gathers them again, the known ones first.  `IsReceivable` says
which handshakes can arrive at all, and the main statement `decode_encode_iff` says that
these are the ones that are read back as they were written.
-/

namespace PeerLink

open Bencode

namespace ExtensionHandshake

/-- A handshake that can arrive: its names and its further keys all differ, no further key
has a known meaning, what stands under them nests at most 63 deep, and all byte strings
have a length of 64 bits. -/
structure IsReceivable (h : ExtensionHandshake) : Prop where
  names_nodup : (h.ids.map Prod.fst).Nodup
  keys_nodup : (h.extra.map Prod.fst).Nodup
  keys_unknown : ∀ entry ∈ h.extra, entry.1 ∉ knownKeys
  depth : ∀ entry ∈ h.extra, entry.2.height ≤ 63
  fits : h.Fits

/-! ## What was written is read -/

section Writing

variable {h : ExtensionHandshake}

theorem mem_knownKeys_of_mem_knownList {entry : Bytes × Value} (hentry : entry ∈ h.knownList) :
    entry.1 ∈ knownKeys := by
  simp only [knownList, List.mem_append, Entries.mem_ofOption] at hentry
  rcases hentry with (((⟨_, -, rfl⟩ | ⟨_, -, rfl⟩) | ⟨_, -, rfl⟩) | ⟨_, -, rfl⟩) | ⟨_, -, rfl⟩
  all_goals simp [knownKeys]

namespace IsReceivable

variable (hreceivable : h.IsReceivable)
include hreceivable

/-- All entries of a receivable handshake are written, those with a known meaning first. -/
theorem toDict_lists : h.toDict.Lists (h.knownList ++ h.extra) := by
  have hknown := knownEntries_lists hreceivable.names_nodup
  apply hknown.insertNew_of_nodup
  have hfront := hknown.nodup_keys
  rw [List.map_append]
  refine List.nodup_append'.mpr ⟨hfront, hreceivable.keys_nodup, ?_⟩
  intro key hkey hextra
  obtain ⟨known, hmem, rfl⟩ := List.mem_map.mp hkey
  obtain ⟨entry, hentry, hsame⟩ := List.mem_map.mp hextra
  exact hreceivable.keys_unknown entry hentry (hsame ▸ mem_knownKeys_of_mem_knownList hmem)

theorem get?_extra (key : String) (hkey : Bytes.ofText key ∈ knownKeys) :
    h.extra.get? key = none := by
  apply List.lookup_eq_none_iff.mpr
  intro entry hentry
  have hne : Bytes.ofText key ≠ entry.1 := fun hsame =>
    hreceivable.keys_unknown entry hentry (hsame ▸ hkey)
  simpa using hne

/-- The further entries are those whose key has no known meaning. -/
theorem filter_entries :
    (h.knownList ++ h.extra).filter (fun e => !knownKeys.contains e.1) = h.extra := by
  have hknown : h.knownList.filter (fun e => !knownKeys.contains e.1) = [] := by
    apply List.filter_eq_nil_iff.mpr
    intro entry hentry
    simp [mem_knownKeys_of_mem_knownList hentry]
  have hextra : h.extra.filter (fun e => !knownKeys.contains e.1) = h.extra := by
    apply List.filter_eq_self.mpr
    intro entry hentry
    simp [hreceivable.keys_unknown entry hentry]
  rw [List.filter_append, hknown, hextra, List.nil_append]

theorem ofEntries_entries : ofEntries (h.knownList ++ h.extra) = .ok h := by
  have hclient : (h.knownList ++ h.extra).get? "v" = h.client.map .text := by
    simp [knownList, Entries.get?_append, hreceivable.get?_extra "v" (by simp [knownKeys])]
  have hyourIp : (h.knownList ++ h.extra).get? "yourip" = h.yourIp.map .bytes := by
    simp [knownList, Entries.get?_append,
      hreceivable.get?_extra "yourip" (by simp [knownKeys])]
  have hqueue : (h.knownList ++ h.extra).get? "reqq" = h.requestQueue.map .int := by
    simp [knownList, Entries.get?_append,
      hreceivable.get?_extra "reqq" (by simp [knownKeys])]
  have hsize : (h.knownList ++ h.extra).get? "metadata_size" = h.metadataSize.map .int := by
    simp [knownList, Entries.get?_append,
      hreceivable.get?_extra "metadata_size" (by simp [knownKeys])]
  rw [ofEntries_of_table (get?_knownList_append h h.extra), hclient, hyourIp, hqueue, hsize,
    hreceivable.filter_entries]
  obtain ⟨ids, client, yourIp, requestQueue, metadataSize, extra⟩ := h
  simp [Option.bind_map, Function.comp_def, Value.text, Value.text?, Value.bytes?, Value.int?]

theorem decode_encode : decode h.encode = .ok h := by
  rw [decode_encode_of_lists hreceivable.names_nodup hreceivable.fits hreceivable.depth
    (List.Sublist.refl _) hreceivable.toDict_lists]
  exact hreceivable.ofEntries_entries

end IsReceivable
end Writing

/-! ## What is read can be written -/

section Reading

variable {h : ExtensionHandshake}

/-- Reading a table skips entries, and keeps the order of the others. -/
theorem readIds_sublist {table : Entries} {ids : List (String × UInt8)}
    (hread : readIds table = .ok ids) :
    (ids.map fun entry => Bytes.ofText entry.1).Sublist (table.map Prod.fst) := by
  induction table generalizing ids with
  | nil =>
    obtain rfl := Except.ok.inj hread
    exact List.Sublist.refl _
  | cons entry rest ih =>
    obtain ⟨key, value⟩ := entry
    rw [readIds] at hread
    split at hread
    · exact (ih hread).cons key
    · next name hname =>
      obtain ⟨id, -, hread⟩ := bind_eq_ok_iff.mp hread
      obtain ⟨later, hlater, hread⟩ := bind_eq_ok_iff.mp hread
      obtain rfl := Except.ok.inj hread
      rw [List.map_cons, List.map_cons, Bytes.ofText_of_toText? hname]
      exact (ih hlater).cons_cons key

/-- Where the parts of a handshake come from. -/
structure Gathers (entries : Entries) (table : Entries) (h : ExtensionHandshake) : Prop where
  table_eq : table = [] ∨ entries.get? "m" = some (.dict table)
  ids_eq : readIds table = .ok h.ids
  client_eq : h.client = (entries.get? "v").bind Value.text?
  yourIp_eq : h.yourIp = (entries.get? "yourip").bind Value.bytes?
  extra_eq : h.extra = entries.filter fun e => !knownKeys.contains e.1

theorem exists_gathers {entries : Entries} (hread : ofEntries entries = .ok h) :
    ∃ table, Gathers entries table h := by
  rw [ofEntries] at hread
  split at hread
  · obtain rfl := Except.ok.inj hread
    exact ⟨[], .inl rfl, rfl, rfl, rfl, rfl⟩
  · next table htable =>
    obtain ⟨ids, hids, hread⟩ := bind_eq_ok_iff.mp hread
    obtain rfl := Except.ok.inj hread
    exact ⟨table, .inr htable, hids, rfl, rfl, rfl⟩
  · cases hread

theorem exists_entries_of_decode {payload : Bytes} (hdecode : decode payload = .ok h) :
    ∃ entries, Bencode.decode payload = .ok (.dict entries) ∧ ofEntries entries = .ok h := by
  rw [decode] at hdecode
  cases hpayload : Bencode.decode payload with
  | error e =>
    rw [hpayload] at hdecode
    cases hdecode
  | ok value =>
    rw [hpayload] at hdecode
    cases value with
    | dict entries => exact ⟨entries, rfl, hdecode⟩
    | _ => cases hdecode

/-- A table of ids that was read is a dictionary that can be written. -/
theorem Gathers.table_isWritable {entries table : Entries} (hgathers : Gathers entries table h)
    (hwritable : EntriesWritable entries) : (Value.dict table).IsWritable := by
  rcases hgathers.table_eq with rfl | htable
  · exact ⟨List.nodup_nil, trivial⟩
  · exact (entriesWritable_iff.mp hwritable _ (Entries.mem_of_get? htable)).2

theorem Gathers.fits {entries table : Entries} (hgathers : Gathers entries table h)
    (hwritable : EntriesWritable entries) : h.Fits where
  ids := by
    intro entry hentry
    have hkey := (readIds_sublist hgathers.ids_eq).subset (List.mem_map_of_mem hentry)
    obtain ⟨named, hnamed, hsame⟩ := List.mem_map.mp hkey
    have hlength :=
      (entriesWritable_iff.mp (hgathers.table_isWritable hwritable).2 named hnamed).1
    rwa [hsame] at hlength
  client := by
    intro text htext
    rw [hgathers.client_eq] at htext
    obtain ⟨value, hvalue, htext⟩ := Option.bind_eq_some_iff.mp htext
    obtain ⟨content, hcontent, htext⟩ := Option.bind_eq_some_iff.mp htext
    rw [Bytes.ofText_of_toText? htext]
    cases value with
    | bytes found =>
      obtain rfl := Option.some.inj hcontent
      exact (entriesWritable_iff.mp hwritable _ (Entries.mem_of_get? hvalue)).2
    | _ => cases hcontent
  yourIp := by
    intro address haddress
    rw [hgathers.yourIp_eq] at haddress
    obtain ⟨value, hvalue, haddress⟩ := Option.bind_eq_some_iff.mp haddress
    cases value with
    | bytes found =>
      obtain rfl := Option.some.inj haddress
      exact (entriesWritable_iff.mp hwritable _ (Entries.mem_of_get? hvalue)).2
    | _ => cases haddress
  extra := by
    rw [hgathers.extra_eq, entriesWritable_iff]
    intro entry hentry
    exact entriesWritable_iff.mp hwritable entry (List.mem_of_mem_filter hentry)

theorem isReceivable_of_decode {payload : Bytes} (hdecode : decode payload = .ok h) :
    h.IsReceivable := by
  obtain ⟨entries, hpayload, hread⟩ := exists_entries_of_decode hdecode
  obtain ⟨table, hgathers⟩ := exists_gathers hread
  obtain ⟨hheight, hspells⟩ := decode_eq_ok_iff.mp hpayload
  obtain ⟨hkeys, hwritable⟩ := hspells.isWritable
  have hextra := hgathers.extra_eq
  constructor
  · have hnames : ((h.ids.map Prod.fst).map Bytes.ofText).Nodup := by
      rw [List.map_map]
      exact (hgathers.table_isWritable hwritable).1.sublist (readIds_sublist hgathers.ids_eq)
    exact hnames.of_map _
  · rw [hextra]
    exact hkeys.sublist (List.filter_sublist.map Prod.fst)
  · rw [hextra]
    intro entry hentry
    simpa using (List.mem_filter.mp hentry).2
  · rw [hextra]
    intro entry hentry
    have hlt := entriesHeight_le_iff.mp hheight entry (List.mem_of_mem_filter hentry)
    exact Nat.le_of_lt_succ hlt
  · exact hgathers.fits hwritable

end Reading

/-- A handshake is read back as it was written, with its ids and its further entries in
order, exactly if it can arrive; and every handshake that did arrive can. -/
theorem decode_encode_iff (h : ExtensionHandshake) :
    (decode h.encode = .ok h ↔ h.IsReceivable) ∧
      ∀ payload, decode payload = .ok h → h.IsReceivable ∧ decode h.encode = .ok h := by
  constructor
  · exact ⟨isReceivable_of_decode, IsReceivable.decode_encode⟩
  · intro payload hdecode
    have hreceivable := isReceivable_of_decode hdecode
    exact ⟨hreceivable, hreceivable.decode_encode⟩

/-- A version that is no text is lost, and the table of ids moves to the front. -/
example :
    let h : ExtensionHandshake :=
      ⟨[("ut_pex", 2)], none, none, none, none, [([122], .list [.int 1])]⟩
    decode (Bytes.ofText "d1:vi1e1:zli1ee1:md6:ut_pexi2eee") = .ok h ∧
      h.encode = Bytes.ofText "d1:md6:ut_pexi2ee1:zli1eee" := by
  intro h
  constructor
  · cbv
  · decide +kernel

end ExtensionHandshake
end PeerLink
