import PeerLink.Proofs.Bencode.RoundTrip

/-!
# Reading input that is still arriving

A peer's bytes come in pieces, so a reader may be shown the front of a text
before the text is complete.  A reader `Stands` if what it says of a front it
says of every continuation, unless it complained about the end of the input.
That makes the end of the input the only complaint about a front of something
that is accepted in the end (`Stands.eq_unexpectedEof`), whatever the order in
which the reader makes its checks.

`decodePrefix_streams` says what this means for decoding, and that no accepted
text is the beginning of another.
-/

namespace PeerLink
namespace Bencode

/-- What the reader says of an input stands whatever follows: what it takes it
takes again, and it makes the same complaint unless that was about the end of the
input. -/
structure Stands {α : Type} (reader : Reader α) : Prop where
  taken : ∀ {input rest : Bytes} {a : α}, Reads reader input a rest →
    ∀ later, Reads reader (input ++ later) a (rest ++ later)
  refused : ∀ {input : Bytes} {e : Error}, reader input = .error e → e ≠ .unexpectedEof →
    ∀ later, reader (input ++ later) = .error e

/-- Of a front that ends inside what is taken, the reader says that it ends too
early. -/
theorem Stands.eq_unexpectedEof {α : Type} {reader : Reader α} (h : Stands reader)
    {front back rest : Bytes} {a : α} (hread : Reads reader (front ++ back) a rest)
    (hinside : rest.length < back.length) : reader front = .error .unexpectedEof := by
  obtain ⟨hlt, hread⟩ := hread
  cases hfront : reader front with
  | ok answer =>
    obtain ⟨b, left, hleft⟩ := answer
    obtain ⟨hlt', hread'⟩ := h.taken ⟨hleft, hfront⟩ back
    rw [hread] at hread'
    have hrest : rest = left ++ back := congrArg (·.2.1) (Except.ok.inj hread')
    rw [hrest, List.length_append] at hinside
    omega
  | error e =>
    by_contra hne
    have hstays := h.refused hfront (fun heq => hne (heq ▸ rfl)) back
    rw [hread] at hstays
    cases hstays

/-! ## Integers and byte strings -/

section Skipping

variable {p : UInt8 → Bool} {input rest : Bytes} {byte : UInt8}

/-- Where something is not skipped, nothing behind it matters to what is. -/
theorem takeWhile_append_of_dropWhile_eq_cons (h : input.dropWhile p = byte :: rest)
    (later : Bytes) : (input ++ later).takeWhile p = input.takeWhile p := by
  have hbyte := eq_false_of_dropWhile_eq_cons h
  have hall : ∀ b ∈ input.takeWhile p, p b = true := fun _ hb => List.mem_takeWhile_imp hb
  have hinput : input = input.takeWhile p ++ byte :: rest := by
    rw [← h, List.takeWhile_append_dropWhile]
  conv_lhs => rw [hinput, List.append_assoc, List.cons_append]
  rw [List.takeWhile_append_of_pos hall, List.takeWhile_cons_of_neg (by simp [hbyte]),
    List.append_nil]

theorem dropWhile_append_of_dropWhile_eq_cons (h : input.dropWhile p = byte :: rest)
    (later : Bytes) : (input ++ later).dropWhile p = byte :: (rest ++ later) := by
  rw [List.dropWhile_append, h]
  rfl

end Skipping

theorem stands_readInteger : Stands readInteger where
  taken := by
    intro input rest n h later
    obtain ⟨text, htext, rfl⟩ := reads_readInteger_iff.mp h
    exact reads_readInteger_iff.mpr ⟨text, htext, by simp⟩
  refused := by
    intro input e h hne later
    rw [readInteger] at h
    split at h
    · cases h
      exact absurd rfl hne
    · next mark left hdrop =>
      split at h
      · next htext =>
        cases h
        have hdrop' := dropWhile_append_of_dropWhile_eq_cons hdrop later
        rw [readInteger]
        split
        · next hnil =>
          rw [hdrop'] at hnil
          cases hnil
        · rw [takeWhile_append_of_dropWhile_eq_cons hdrop, htext]
      · cases h

theorem stands_readBytes : Stands readBytes where
  taken := by
    intro input rest content h later
    obtain ⟨text, htext, rfl⟩ := reads_readBytes_iff.mp h
    exact reads_readBytes_iff.mpr ⟨text, htext, by simp⟩
  refused := by
    intro input e h hne later
    rw [readBytes] at h
    split at h
    · cases h
      exact absurd rfl hne
    · next mark left hdrop =>
      have hdrop' := dropWhile_append_of_dropWhile_eq_cons hdrop later
      have htake' := takeWhile_append_of_dropWhile_eq_cons hdrop later
      rw [readBytes]
      split
      · next hnil =>
        rw [hdrop'] at hnil
        cases hnil
      · next mark' left' hcons =>
        rw [hdrop'] at hcons
        cases hcons
        dsimp only at h ⊢
        split at h
        · next hcond =>
          cases h
          rw [← htake'] at hcond
          rw [if_pos hcond]
        · next hcond =>
          rw [← htake'] at hcond
          rw [if_neg hcond]
          split at h
          · next hsize =>
            cases h
            rw [← htake'] at hsize
            rw [if_pos hsize]
          · split at h
            · cases h
              exact absurd rfl hne
            · cases h

/-! ## Items and entries -/

section Containers

variable {item : Reader Value}

/-- A complaint inside a list stands.  The bound `outer` serves termination only and
may be another one for the longer input. -/
theorem readItems_append_of_error (hitem : Stands item) {outer : Bytes} {done : List Value}
    {input : Bytes} {h : input.length < outer.length} {e : Error}
    (hread : readItems item outer done input h = .error e) (hne : e ≠ .unexpectedEof)
    (longer later : Bytes) (hlonger : (input ++ later).length < longer.length) :
    readItems item longer done (input ++ later) hlonger = .error e := by
  fun_induction readItems item outer done input h with
  | case1 =>
    cases hread
    exact absurd rfl hne
  | case2 => cases hread
  | case3 done byte rest _ hmark e' hv =>
    cases hread
    have hv' := hitem.refused hv hne later
    simp only [List.cons_append] at hv' ⊢
    simp only [readItems, if_neg hmark, hv']
  | case4 done byte rest _ hmark v left hlt hv _ ih =>
    obtain ⟨hlt', hv'⟩ := hitem.taken ⟨hlt, hv⟩ later
    simp only [List.cons_append] at hlt' hv' ⊢
    simp only [readItems, if_neg hmark, hv']
    exact ih hread _

/-- A complaint inside a dictionary stands, that about a repeated key included: it
depends on the entries before it alone. -/
theorem readEntries_append_of_error (hitem : Stands item) {outer : Bytes} {done : Dict}
    {input : Bytes} {h : input.length < outer.length} {e : Error}
    (hread : readEntries item outer done input h = .error e) (hne : e ≠ .unexpectedEof)
    (longer later : Bytes) (hlonger : (input ++ later).length < longer.length) :
    readEntries item longer done (input ++ later) hlonger = .error e := by
  fun_induction readEntries item outer done input h with
  | case1 =>
    cases hread
    exact absurd rfl hne
  | case2 => cases hread
  | case3 done byte rest _ hmark hdigit =>
    cases hread
    simp only [List.cons_append, readEntries, if_neg hmark, if_pos hdigit]
  | case4 done byte rest _ hmark hdigit e' hkey =>
    cases hread
    have hkey' := stands_readBytes.refused hkey hne later
    simp only [List.cons_append] at hkey' ⊢
    simp only [readEntries, if_neg hmark, if_neg hdigit, hkey']
  | case5 done byte rest _ hmark hdigit key afterKey hkeyLt hkey hknown =>
    cases hread
    obtain ⟨hkeyLt', hkey'⟩ := stands_readBytes.taken ⟨hkeyLt, hkey⟩ later
    simp only [List.cons_append] at hkeyLt' hkey' ⊢
    simp only [readEntries, if_neg hmark, if_neg hdigit, hkey', if_pos hknown]
  | case6 done byte rest _ hmark hdigit key afterKey hkeyLt hkey hnew e' hv =>
    cases hread
    obtain ⟨hkeyLt', hkey'⟩ := stands_readBytes.taken ⟨hkeyLt, hkey⟩ later
    have hv' := hitem.refused hv hne later
    simp only [List.cons_append] at hkeyLt' hkey' ⊢
    simp only [readEntries, if_neg hmark, if_neg hdigit, hkey', if_neg hnew, hv']
  | case7 done byte rest _ hmark hdigit key afterKey hkeyLt hkey hnew v left hlt hv _ ih =>
    obtain ⟨hkeyLt', hkey'⟩ := stands_readBytes.taken ⟨hkeyLt, hkey⟩ later
    obtain ⟨hlt', hv'⟩ := hitem.taken ⟨hlt, hv⟩ later
    simp only [List.cons_append] at hkeyLt' hkey' hlt' hv' ⊢
    simp only [readEntries, if_neg hmark, if_neg hdigit, hkey', if_neg hnew, hv']
    exact ih hread _

end Containers

/-! ## Values -/

/-- One more level: the complaint comes from the part that the first byte selects, or
is about that byte. -/
theorem readValue_append_of_error {levels : Nat} (hitem : Stands (readValue levels))
    {input : Bytes} {e : Error} (hread : readValue (levels + 1) input = .error e)
    (hne : e ≠ .unexpectedEof) (later : Bytes) :
    readValue (levels + 1) (input ++ later) = .error e := by
  cases input with
  | nil =>
    cases hread
    exact absurd rfl hne
  | cons byte rest =>
    rw [List.cons_append]
    rw [readValue] at hread ⊢
    split at hread
    · next hint =>
      rw [if_pos hint]
      split at hread
      · next hn =>
        cases hread
        rw [stands_readInteger.refused hn hne later]
      · cases hread
    · next hint =>
      rw [if_neg hint]
      split at hread
      · next hlist =>
        rw [if_pos hlist]
        split at hread
        · next hitems =>
          cases hread
          rw [readItems_append_of_error hitem hitems hne]
        · cases hread
      · next hlist =>
        rw [if_neg hlist]
        split at hread
        · next hdict =>
          rw [if_pos hdict]
          split at hread
          · next hentries =>
            cases hread
            rw [readEntries_append_of_error hitem hentries hne]
          · cases hread
        · next hdict =>
          rw [if_neg hdict]
          split at hread
          · next hdigit =>
            rw [if_pos hdigit]
            split at hread
            · next hcontent =>
              cases hread
              have hstays := stands_readBytes.refused hcontent hne later
              rw [List.cons_append] at hstays
              rw [hstays]
            · cases hread
          · next hdigit =>
            cases hread
            rw [if_neg hdigit]

theorem stands_readValue (levels : Nat) : Stands (readValue levels) := by
  induction levels with
  | zero =>
    constructor
    · rintro input rest v ⟨hlt, h⟩
      cases h
    · intro input e h hne later
      cases h
      rfl
  | succ levels ih =>
    constructor
    · intro input rest v h later
      obtain ⟨text, htext, hheight, rfl⟩ := (readsBelow_readValue _ _ _ _).mp h
      exact (readsBelow_readValue _ _ _ _).mpr ⟨text, htext, hheight, List.append_assoc ..⟩
    · intro input e h hne later
      exact readValue_append_of_error ih h hne later

/-! ## Decoding -/

theorem decodePrefix_eq_error_iff {input : Bytes} {e : Error} :
    decodePrefix input = .error e ↔ readValue (maxDepth + 1) input = .error e := by
  rw [decodePrefix, Value.read]
  cases readValue (maxDepth + 1) input with
  | error e' => simp
  | ok answer => simp

/-- A text that has a spelling at its front has no other one there, so no spelling is
the beginning of another. -/
theorem Spells.eq_of_prefix {v w : Value} {first second : Bytes} (hv : Spells AnyLength v first)
    (hw : Spells AnyLength w second) (hbegins : first <+: second) : v = w ∧ first = second := by
  obtain ⟨rest, hrest⟩ := hbegins
  exact hv.unique hw (hrest.trans (List.append_nil second).symm)

/-- The part of an input that a value was decoded from decides the answer: any input
that begins with it gets the same answer, and any front of it is said to end too
early.  Any other complaint stands whatever follows, so that the end of the input is
the only answer that more input can change.  No decodable text and no written form is
the beginning of another. -/
theorem decodePrefix_streams (input : Bytes) :
    (∀ v count, decodePrefix input = .ok (v, count) →
      (∀ other, input.take count <+: other → decodePrefix other = .ok (v, count)) ∧
        ∀ front, front <+: input.take count → front ≠ input.take count →
          decodePrefix front = .error .unexpectedEof) ∧
    (∀ e, decodePrefix input = .error e → e ≠ .unexpectedEof →
      ∀ later, decodePrefix (input ++ later) = .error e) ∧
    (∀ later, decodePrefix (input ++ later) ≠ decodePrefix input →
      decodePrefix input = .error .unexpectedEof) ∧
    (∀ v, decode input = .ok v → ∀ other, input <+: other → input ≠ other →
      ∀ w, decode other ≠ .ok w) ∧
    ∀ v w : Value, v.IsWritable → w.IsWritable → v ≠ w → ¬v.encode <+: w.encode := by
  have hstands := stands_readValue (maxDepth + 1)
  have haccepted : ∀ v count, decodePrefix input = .ok (v, count) →
      ∀ other, input.take count <+: other → decodePrefix other = .ok (v, count) := by
    intro v count h other hother
    obtain ⟨hheight, hcount, htext⟩ := decodePrefix_eq_ok_iff.mp h
    obtain ⟨rest, rfl⟩ := hother
    have hlength : (input.take count).length = count := List.length_take_of_le hcount
    refine decodePrefix_eq_ok_iff.mpr ⟨hheight, ?_, ?_⟩
    · rw [List.length_append]
      omega
    · rwa [List.take_left' hlength]
  have hrefused : ∀ e, decodePrefix input = .error e → e ≠ .unexpectedEof →
      ∀ later, decodePrefix (input ++ later) = .error e := by
    intro e h hne later
    rw [decodePrefix_eq_error_iff] at h ⊢
    exact hstands.refused h hne later
  refine ⟨fun v count h => ⟨haccepted v count h, ?_⟩, hrefused, ?_, ?_, ?_⟩
  · rintro front ⟨back, hback⟩ hne
    obtain ⟨hheight, -, htext⟩ := decodePrefix_eq_ok_iff.mp h
    have hread : Reads (readValue (maxDepth + 1)) (front ++ back) v [] :=
      (readsBelow_readValue _ _ _ _).mpr
        ⟨_, htext, Nat.lt_succ_of_le hheight, by rw [hback, List.append_nil]⟩
    have hinside : 0 < back.length := by
      rw [List.length_pos_iff]
      rintro rfl
      exact hne (by rw [← hback, List.append_nil])
    exact decodePrefix_eq_error_iff.mpr (hstands.eq_unexpectedEof hread hinside)
  · intro later hchanged
    cases h : decodePrefix input with
    | ok answer =>
      obtain ⟨v, count⟩ := answer
      rw [haccepted v count h (input ++ later)
        ((List.take_prefix count input).trans (List.prefix_append input later)), h] at hchanged
      exact absurd rfl hchanged
    | error e =>
      by_contra hne
      rw [hrefused e h (fun heq => hne (heq ▸ rfl)) later, h] at hchanged
      exact hchanged rfl
  · intro v hv other hbegins hne w hw
    have hspells := (decode_eq_ok_iff.mp hv).2
    exact hne (hspells.eq_of_prefix (decode_eq_ok_iff.mp hw).2 hbegins).2
  · intro v w hv hw hne hbegins
    have hany : ∀ run, Decimal.IsShortest run → AnyLength run := fun _ _ => trivial
    have hspells : Spells AnyLength v v.encode := (spells_encode hv).mono hany
    exact hne (hspells.eq_of_prefix ((spells_encode hw).mono hany) hbegins).1

/-- A dictionary with a nested list is decoded whatever follows it, and ends too early
within the list; more input changes that answer.  A repeated key is refused before its
value has arrived. -/
theorem decodePrefix_streams_of_dict :
    let whole : Bytes := [100, 49, 58, 97, 108, 105, 45, 55, 101, 101, 101]
    let front : Bytes := [100, 49, 58, 97, 108, 105]
    let repeated : Bytes := [100, 49, 58, 97, 105, 49, 101, 49, 58, 97]
    let v : Value := .dict [([97], .list [.int (-7)])]
    (decodePrefix (whole ++ [49, 58]) = .ok (v, 11) ∧
        decodePrefix front = .error .unexpectedEof) ∧
      decodePrefix (repeated ++ [105]) = .error (.duplicateKey [97]) ∧
      decodePrefix front = .error .unexpectedEof ∧
      decode (whole ++ [48]) ≠ .ok v ∧
      ¬v.encode <+: (Value.dict [([97], .list [])]).encode := by
  intro whole front repeated v
  have hwhole : decodePrefix whole = .ok (v, 11) := by decide +kernel
  have hdecode : decode whole = .ok v := by decide +kernel
  have hrepeated : decodePrefix repeated = .error (.duplicateKey [97]) := by decide +kernel
  have hchanges : decodePrefix (front ++ whole.drop 6) ≠ decodePrefix front := by decide +kernel
  have hwritable : v.IsWritable ∧ (Value.dict [([97], .list [])]).IsWritable := by
    simp [v, Value.IsWritable, ItemsWritable, EntriesWritable, UInt64.size]
  obtain ⟨haccepted, -, -, hends, hwritten⟩ := decodePrefix_streams whole
  obtain ⟨hgoesOn, hwaits⟩ := haccepted v 11 hwhole
  exact ⟨⟨hgoesOn _ (by decide), hwaits front (by decide) (by decide)⟩,
    (decodePrefix_streams repeated).2.1 _ hrepeated (by decide) [105],
    (decodePrefix_streams front).2.2.1 _ hchanges,
    hends v hdecode _ (by decide) (by decide) v,
    hwritten v _ hwritable.1 hwritable.2 (by decide)⟩

end Bencode
end PeerLink
