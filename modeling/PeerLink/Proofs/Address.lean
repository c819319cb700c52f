import PeerLink.Address
import PeerLink.Proofs.Wire.Exactness

/-!
# Compact addresses

Addresses of one family are written one after another in records of one size, so they need
no separators: what was written is cut into the same addresses again, and bytes of any
length are cut into as many addresses as they have whole records.  `IsFamily` says what the
two families have in common, and everything else follows from that.
-/

namespace PeerLink

/-! ## Records of one size -/

namespace Bytes

variable {n : Nat}

theorem ofUInt16_word16 (a b : UInt8) : ofUInt16 (word16 a b) = [a, b] := by
  have ha := a.toNat_lt
  have hb := b.toNat_lt
  have hword : (word16 a b).toNat = a.toNat * 256 + b.toNat := by
    rw [word16, UInt16.toNat_ofNat']
    omega
  simp only [ofUInt16, hword, List.cons.injEq, and_true, ← UInt8.toNat_inj, UInt8.toNat_ofNat']
  omega

theorem records_of_lt {bytes : Bytes} (h : bytes.length < n) : records n bytes = [] := by
  have hfield : field? n bytes = none := by
    rw [field?, splitAt?_eq_none_iff.mpr h]
    rfl
  rw [records, dif_pos (Nat.zero_lt_of_lt h)]
  split
  · rfl
  · next hsome =>
    rw [hfield] at hsome
    cases hsome

theorem records_toList_append (hn : 0 < n) (record : Vector UInt8 n) (rest : Bytes) :
    records n (record.toList ++ rest) = record :: records n rest := by
  rw [records, dif_pos hn]
  split
  · next hnone =>
    rw [field?_toList_append] at hnone
    cases hnone
  · next found left hfound =>
    rw [field?_toList_append] at hfound
    obtain ⟨rfl, rfl⟩ := Prod.mk.inj (Option.some.inj hfound)
    rfl

/-- Records that were written one after another are found again, whatever is behind them that
is shorter than a record. -/
theorem records_flatMap_append (hn : 0 < n) (written : List (Vector UInt8 n)) {rest : Bytes}
    (hrest : rest.length < n) : records n (written.flatMap Vector.toList ++ rest) = written := by
  induction written with
  | nil => exact records_of_lt hrest
  | cons record later ih =>
    rw [List.flatMap_cons, List.append_assoc, records_toList_append hn, ih]

/-- Bytes are their records, and less than a record behind them. -/
theorem exists_eq_flatMap_records (hn : 0 < n) (bytes : Bytes) :
    ∃ rest, rest.length < n ∧ bytes = (records n bytes).flatMap Vector.toList ++ rest := by
  induction hlength : bytes.length using Nat.strongRecOn generalizing bytes with
  | ind length ih =>
    subst hlength
    rcases Nat.lt_or_ge bytes.length n with hshort | hlong
    · rw [records_of_lt hshort]
      exact ⟨bytes, hshort, rfl⟩
    · have hthere : 0 + n ≤ bytes.length := by omega
      obtain ⟨record, hfield⟩ := exists_field? hthere
      have hbytes := eq_of_field? hfield
      simp only [List.drop_zero, Nat.zero_add] at hbytes
      have hshorter : (bytes.drop n).length < bytes.length := by
        rw [List.length_drop]
        omega
      obtain ⟨rest, hrest, hlater⟩ := ih _ hshorter (bytes.drop n) rfl
      refine ⟨rest, hrest, ?_⟩
      rw [hbytes, records_toList_append hn, List.flatMap_cons, List.append_assoc, ← hlater]

theorem length_flatMap_toList (written : List (Vector UInt8 n)) :
    (written.flatMap Vector.toList).length = n * written.length := by
  induction written with
  | nil => rfl
  | cons record later ih =>
    rw [List.flatMap_cons, List.length_append, ih, Vector.length_toList, List.length_cons,
      Nat.mul_succ, Nat.add_comm]

theorem length_records (hn : 0 < n) (bytes : Bytes) :
    (records n bytes).length = bytes.length / n := by
  obtain ⟨rest, hrest, hbytes⟩ := exists_eq_flatMap_records hn bytes
  have hlength := congrArg List.length hbytes
  rw [List.length_append, length_flatMap_toList] at hlength
  rw [hlength, Nat.mul_add_div hn, Nat.div_eq_of_lt hrest, Nat.add_zero]

/-- The records are the bytes as far as these make up whole records. -/
theorem flatMap_records (hn : 0 < n) (bytes : Bytes) :
    (records n bytes).flatMap Vector.toList = bytes.take (n * (bytes.length / n)) := by
  obtain ⟨rest, -, hbytes⟩ := exists_eq_flatMap_records hn bytes
  have hlength := length_flatMap_toList (records n bytes)
  rw [length_records hn] at hlength
  calc (records n bytes).flatMap Vector.toList
      = ((records n bytes).flatMap Vector.toList ++ rest).take (n * (bytes.length / n)) :=
        (List.take_left' hlength).symm
    _ = bytes.take (n * (bytes.length / n)) := by rw [← hbytes]

end Bytes

/-! ## Families of addresses -/

namespace Address

/-- Within a family, the compact form determines the address. -/
theorem eq_of_compact_eq {first second : Address} (hfamily : first.host.isV4 = second.host.isV4)
    (h : first.compact = second.compact) : first = second := by
  obtain ⟨host, port⟩ := first
  obtain ⟨host', port'⟩ := second
  have hlength : (Bytes.ofUInt16 port).length = (Bytes.ofUInt16 port').length := rfl
  obtain ⟨hhost, hport⟩ := List.append_inj' h hlength
  have hport' : port = port' := by
    have hread := Bytes.takeUInt16?_ofUInt16_append port []
    rw [hport, Bytes.takeUInt16?_ofUInt16_append] at hread
    exact (Prod.mk.inj (Option.some.inj hread)).1.symm
  subst hport'
  cases host with
  | v4 octets =>
    cases host' with
    | v4 octets' => rw [Vector.toList_inj.mp hhost]
    | v6 octets' => cases hfamily
  | v6 octets =>
    cases host' with
    | v4 octets' => cases hfamily
    | v6 octets' => rw [Vector.toList_inj.mp hhost]

/-- Records of `n` bytes are the compact forms of the addresses of a family. -/
structure IsFamily (n : Nat) (ofRecord : Vector UInt8 n → Address) (isV4 : Bool) : Prop where
  pos : 0 < n
  isV4_ofRecord : ∀ record, (ofRecord record).host.isV4 = isV4
  compact_ofRecord : ∀ record, (ofRecord record).compact = record.toList
  length_compact : ∀ address : Address, address.host.isV4 = isV4 → address.compact.length = n

theorem isFamily4 : IsFamily 6 ofRecord4 true where
  pos := by decide
  isV4_ofRecord _ := rfl
  compact_ofRecord := by
    rintro ⟨⟨bytes⟩, hsize⟩
    match bytes, hsize with
    | [a, b, c, d, e, f], _ => exact congrArg ([a, b, c, d] ++ ·) (Bytes.ofUInt16_word16 e f)
  length_compact := by
    rintro ⟨host, port⟩ hfamily
    cases host with
    | v4 octets => simp [compact, Host.toBytes]
    | v6 octets => cases hfamily

theorem isFamily6 : IsFamily 18 ofRecord6 false where
  pos := by decide
  isV4_ofRecord _ := rfl
  compact_ofRecord := by
    intro record
    have hport : record.toList.drop 16 = [record[16], record[17]] := by
      rw [List.drop_eq_getElem_cons (by simp), List.drop_eq_getElem_cons (by simp),
        List.drop_eq_nil_of_le (by simp)]
      rfl
    have hhost : (ofRecord6 record).host.toBytes = record.toList.take 16 :=
      Vector.toList_take ..
    rw [compact, hhost]
    dsimp only [ofRecord6]
    rw [Bytes.ofUInt16_word16, ← hport, List.take_append_drop]
  length_compact := by
    rintro ⟨host, port⟩ hfamily
    cases host with
    | v4 octets => cases hfamily
    | v6 octets => simp [compact, Host.toBytes]

/-- These are the addresses that some bytes hold in records of `n` bytes.  There is one for
every whole record, the records are their compact forms, and they are of one family. -/
structure Fill (n : Nat) (isV4 : Bool) (bytes : Bytes) (addresses : List Address) : Prop where
  length_eq : addresses.length = bytes.length / n
  compact_eq : addresses.flatMap compact = bytes.take (n * (bytes.length / n))
  family : ∀ address ∈ addresses, address.host.isV4 = isV4

namespace IsFamily

variable {n : Nat} {ofRecord : Vector UInt8 n → Address} {isV4 : Bool}
  (h : IsFamily n ofRecord isV4)
include h

theorem exists_record {address : Address} (haddress : address.host.isV4 = isV4) :
    ∃ record, ofRecord record = address := by
  let record : Vector UInt8 n := ⟨address.compact.toArray, h.length_compact address haddress⟩
  have hcompact : (ofRecord record).compact = address.compact := h.compact_ofRecord record
  exact ⟨record, eq_of_compact_eq ((h.isV4_ofRecord record).trans haddress.symm) hcompact⟩

theorem exists_records {addresses : List Address}
    (hall : ∀ address ∈ addresses, address.host.isV4 = isV4) :
    ∃ written : List (Vector UInt8 n), written.map ofRecord = addresses := by
  induction addresses with
  | nil => exact ⟨[], rfl⟩
  | cons address later ih =>
    obtain ⟨haddress, hlater⟩ := List.forall_mem_cons.mp hall
    obtain ⟨record, rfl⟩ := h.exists_record haddress
    obtain ⟨written, rfl⟩ := ih hlater
    exact ⟨record :: written, rfl⟩

theorem flatMap_compact (written : List (Vector UInt8 n)) :
    (written.map ofRecord).flatMap compact = written.flatMap Vector.toList := by
  rw [List.flatMap_map]
  exact congrArg written.flatMap (funext h.compact_ofRecord)

theorem length_flatMap_compact {addresses : List Address}
    (hall : ∀ address ∈ addresses, address.host.isV4 = isV4) :
    (addresses.flatMap compact).length = n * addresses.length := by
  obtain ⟨written, rfl⟩ := h.exists_records hall
  rw [h.flatMap_compact, Bytes.length_flatMap_toList, List.length_map]

/-- Addresses of a family are found again in their compact forms. -/
theorem records_compact {addresses : List Address}
    (hall : ∀ address ∈ addresses, address.host.isV4 = isV4) :
    (Bytes.records n (addresses.flatMap compact)).map ofRecord = addresses := by
  obtain ⟨written, rfl⟩ := h.exists_records hall
  have hnone : ([] : Bytes).length < n := h.pos
  rw [h.flatMap_compact, ← List.append_nil (written.flatMap _),
    Bytes.records_flatMap_append h.pos written hnone]

/-- Any bytes are read as the addresses that they hold. -/
theorem fill_records (bytes : Bytes) :
    Fill n isV4 bytes ((Bytes.records n bytes).map ofRecord) where
  length_eq := by rw [List.length_map, Bytes.length_records h.pos]
  compact_eq := by rw [h.flatMap_compact, Bytes.flatMap_records h.pos]
  family := by
    intro address haddress
    obtain ⟨record, -, rfl⟩ := List.mem_map.mp haddress
    exact h.isV4_ofRecord record

end IsFamily
end Address
end PeerLink
