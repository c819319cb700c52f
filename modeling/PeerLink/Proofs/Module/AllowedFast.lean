import Mathlib.Data.Fintype.BigOperators
import Mathlib.Data.Fintype.Pigeonhole
import PeerLink.Module.AllowedFast
import PeerLink.Proofs.FirstOccurrence
import PeerLink.Proofs.Wire.Layout

/-!
# The pieces of a chain of digests

The words of the chain name one piece after another, and the allowed fast set is what the
first of them name, without repetitions.  The loop that chooses the pieces stops inside some
digest.  `chooseFromChain_eq` says what it has chosen by then without following it, so that
sets of different sizes can be compared.

The loop ends if the chain names enough pieces.  There are fewer than `chainLength` different
digests, so that whatever the chain names at all it names within its first `chainLength`
digests.
-/

namespace PeerLink
namespace AllowedFast

variable {hash : Bytes → Digest} {pieceCount : UInt32}

/-! ## The chain -/

/-- The digests of the chain that starts with a text. -/
def chainDigest (hash : Bytes → Digest) (text : Bytes) : Nat → Digest
  | 0 => hash text
  | place + 1 => hash (chainDigest hash text place).toList

/-- The piece that a word of the chain names.  Every digest has five words, which are read
most significant byte first and taken modulo the number of pieces. -/
def chainPiece (hash : Bytes → Digest) (pieceCount : UInt32) (text : Bytes) (place : Nat) :
    UInt32 :=
  Bytes.wordAt (chainDigest hash text (place / 5)).toList (4 * (place % 5)) % pieceCount

/-- The pieces that the first words of the chain name. -/
def chainPieces (hash : Bytes → Digest) (pieceCount : UInt32) (text : Bytes) (count : Nat) :
    List UInt32 :=
  (List.range count).map (chainPiece hash pieceCount text)

/-- Behind its first digest, the chain is the one that starts with that digest. -/
theorem chainDigest_succ (text : Bytes) (place : Nat) :
    chainDigest hash text (place + 1) = chainDigest hash (hash text).toList place := by
  induction place with
  | zero => rfl
  | succ place ih => rw [chainDigest, ih, chainDigest]

theorem chainPiece_add_five (text : Bytes) (place : Nat) :
    chainPiece hash pieceCount text (5 + place) =
      chainPiece hash pieceCount (hash text).toList place := by
  have hdigest : (5 + place) / 5 = place / 5 + 1 := by omega
  have hword : (5 + place) % 5 = place % 5 := by omega
  rw [chainPiece, hdigest, hword, chainDigest_succ, chainPiece]

theorem words_eq (bytes : Bytes) :
    Sha1.words bytes =
      (List.range (bytes.length / 4)).map fun place => Bytes.wordAt bytes (4 * place) := by
  fun_induction Sha1.words bytes with
  | case1 a b c d rest ih =>
    have hcount : (a :: b :: c :: d :: rest).length / 4 = rest.length / 4 + 1 := by
      simp only [List.length_cons]
      omega
    have hfirst :
        Bytes.word32 a b c d = Bytes.wordAt (a :: b :: c :: d :: rest) (4 * 0) := by
      simp [Bytes.word32, Bytes.wordAt, Bytes.numberAt, Bytes.number]
    rw [hcount, List.range_succ_eq_map, List.map_cons, List.map_map, ih, ← hfirst]
    rfl
  | case2 bytes hshort =>
    have hlength : bytes.length < 4 := by
      rcases bytes with _ | ⟨a, _ | ⟨b, _ | ⟨c, _ | ⟨d, rest⟩⟩⟩⟩
      case cons.cons.cons.cons => exact (hshort a b c d rest rfl).elim
      all_goals simp
    rw [Nat.div_eq_of_lt hlength]
    rfl

theorem chainPieces_five (text : Bytes) :
    chainPieces hash pieceCount text 5 =
      (Sha1.words (hash text).toList).map (· % pieceCount) := by
  rw [words_eq, Vector.length_toList, List.map_map]
  rfl

theorem chainPieces_five_add (text : Bytes) (count : Nat) :
    chainPieces hash pieceCount text (5 + count) =
      chainPieces hash pieceCount text 5 ++
        chainPieces hash pieceCount (hash text).toList count := by
  rw [chainPieces, List.range_add, List.map_append, List.map_map]
  congr 1
  exact List.map_congr_left fun place _ => chainPiece_add_five text place

/-- Once enough pieces are named, later words make no difference. -/
theorem take_eraseDups_chainPieces {text : Bytes} {count later size : Nat} (hle : count ≤ later)
    (h : size ≤ (chainPieces hash pieceCount text count).eraseDups.length) :
    (chainPieces hash pieceCount text later).eraseDups.take size =
      (chainPieces hash pieceCount text count).eraseDups.take size := by
  obtain ⟨more, rfl⟩ := Nat.exists_eq_add_of_le hle
  have happend : chainPieces hash pieceCount text (count + more) =
      chainPieces hash pieceCount text count ++
        (List.range more).map fun place => chainPiece hash pieceCount text (count + place) := by
    rw [chainPieces, List.range_add, List.map_append, List.map_map]
    rfl
  rw [happend, take_eraseDups_append h]

/-! ## What the loop chooses -/

theorem choose_eq {size : Nat} {chosen : List UInt32} (hdistinct : chosen.Nodup)
    (hroom : chosen.length ≤ size) (pieces : List UInt32) :
    choose size chosen pieces = (chosen ++ pieces).eraseDups.take size := by
  have hstart := eraseDups_of_nodup hdistinct
  fun_induction choose size chosen pieces with
  | case1 chosen => rw [List.append_nil, hstart, List.take_of_length_le hroom]
  | case2 chosen piece rest hfull =>
    rw [take_eraseDups_append (by rwa [hstart]), hstart, List.take_of_length_le hroom]
  | case3 chosen piece rest hopen hthere ih =>
    have hsame : (chosen ++ [piece]).eraseDups = chosen := by
      rw [eraseDups_append_singleton, if_pos hthere, hstart]
    rw [ih hdistinct hroom hstart, List.append_cons, ← eraseDups_eraseDups_append (chosen ++ _),
      hsame]
  | case4 chosen piece rest hopen hnew ih =>
    have hsame : (chosen ++ [piece]).eraseDups = chosen ++ [piece] := by
      rw [eraseDups_append_singleton, if_neg hnew, hstart]
    have hmore : (chosen ++ [piece]).length ≤ size := by
      rw [List.length_append, List.length_singleton]
      omega
    rw [ih (hsame ▸ nodup_eraseDups _) hmore hsame, ← List.append_cons]

/-- The loop chooses the first pieces that the chain names, whatever was chosen before. -/
theorem chooseFromChain_eq {size : Nat} (steps : Nat) (text : Bytes) {chosen : List UInt32}
    (hdistinct : chosen.Nodup) (hroom : chosen.length ≤ size) :
    chooseFromChain hash pieceCount size steps text chosen =
      (chosen ++ chainPieces hash pieceCount text (5 * steps)).eraseDups.take size := by
  induction steps generalizing text chosen with
  | zero =>
    rw [chooseFromChain, Nat.mul_zero, chainPieces, List.range_zero, List.map_nil,
      List.append_nil, eraseDups_of_nodup hdistinct, List.take_of_length_le hroom]
  | succ steps ih =>
    rw [chooseFromChain]
    split
    · next hfull =>
      have hstart := eraseDups_of_nodup hdistinct
      rw [take_eraseDups_append (by rwa [hstart]), hstart, List.take_of_length_le hroom]
    · -- The words of this digest come first, and those of the chain behind it follow.
      have hmany : 5 * (steps + 1) = 5 + 5 * steps := by omega
      dsimp only
      rw [choose_eq hdistinct hroom, ← chainPieces_five, ih, take_eraseDups_take_append,
        List.append_assoc, ← chainPieces_five_add, hmany]
      · exact (List.take_sublist _ _).nodup (nodup_eraseDups _)
      · exact List.length_take_le _ _

/-- The text that the chain starts with. -/
def seed (infoHash : Digest) (host : Host) : Bytes := network host ++ infoHash.toList

theorem generateWith_eq (hash : Bytes → Digest) (infoHash : Digest) (host : Host)
    (pieceCount : UInt32) (size : Nat) :
    generateWith hash infoHash host pieceCount size =
      (chainPieces hash pieceCount (seed infoHash host) (5 * chainLength)).eraseDups.take
        (min size pieceCount.toNat) := by
  rw [generateWith, chooseFromChain_eq _ _ List.nodup_nil (Nat.zero_le _), List.nil_append, seed]

theorem nodup_generateWith (hash : Bytes → Digest) (infoHash : Digest) (host : Host)
    (pieceCount : UInt32) (size : Nat) :
    (generateWith hash infoHash host pieceCount size).Nodup := by
  rw [generateWith_eq]
  exact (List.take_sublist _ _).nodup (nodup_eraseDups _)

/-- A smaller set is the beginning of a larger one. -/
theorem isPrefix_generateWith (infoHash : Digest) (host : Host) {smaller size : Nat}
    (h : smaller ≤ size) :
    generateWith hash infoHash host pieceCount smaller <+:
      generateWith hash infoHash host pieceCount size := by
  rw [generateWith_eq, generateWith_eq]
  have hroom : min smaller pieceCount.toNat ≤ min size pieceCount.toNat := by omega
  exact List.take_prefix_take_left hroom

theorem lt_of_mem_generateWith {infoHash : Digest} {host : Host} {size : Nat} {piece : UInt32}
    (h : piece ∈ generateWith hash infoHash host pieceCount size) : piece < pieceCount := by
  rw [generateWith_eq] at h
  have hsome : 0 < min size pieceCount.toNat := by
    rw [Nat.pos_iff_ne_zero]
    intro hnone
    rw [hnone, List.take_zero] at h
    cases h
  obtain ⟨place, -, rfl⟩ := List.mem_map.mp (List.mem_eraseDups.mp (List.mem_of_mem_take h))
  rw [chainPiece, UInt32.lt_iff_toNat_lt, UInt32.toNat_mod]
  exact Nat.mod_lt _ (by omega)

/-- The set is what some number of words name. -/
theorem exists_generateWith_eq (hash : Bytes → Digest) (infoHash : Digest) (host : Host)
    (pieceCount : UInt32) (size : Nat) :
    ∃ count, generateWith hash infoHash host pieceCount size =
      (chainPieces hash pieceCount (seed infoHash host) count).eraseDups := by
  obtain ⟨count, hcount, htake⟩ := exists_take_eraseDups_eq
    (chainPieces hash pieceCount (seed infoHash host) (5 * chainLength))
    (min size pieceCount.toNat)
  refine ⟨count, ?_⟩
  rw [chainPieces, List.length_map, List.length_range] at hcount
  rw [generateWith_eq, htake, chainPieces, ← List.map_take, List.take_range,
    Nat.min_eq_left hcount, chainPieces]

/-- Only the network of an IPv4 host counts. -/
theorem generateWith_v4_congr (hash : Bytes → Digest) (infoHash : Digest)
    {octets other : Vector UInt8 4} (h : octets.toList.take 3 = other.toList.take 3)
    (pieceCount : UInt32) (size : Nat) :
    generateWith hash infoHash (.v4 octets) pieceCount size =
      generateWith hash infoHash (.v4 other) pieceCount size := by
  rw [generateWith, network, h, generateWith, network]

/-! ## The chain repeats itself -/

theorem chainDigest_add (text : Bytes) {first second : Nat}
    (h : chainDigest hash text first = chainDigest hash text second) (more : Nat) :
    chainDigest hash text (first + more) = chainDigest hash text (second + more) := by
  induction more with
  | zero => exact h
  | succ more ih => exact congrArg (fun digest => hash digest.toList) ih

/-- Two digests of the chain are the same, since there are fewer than `chainLength`. -/
theorem exists_chainDigest_eq (hash : Bytes → Digest) (text : Bytes) :
    ∃ first second, first < second ∧ second < chainLength ∧
      chainDigest hash text first = chainDigest hash text second := by
  let octets (place : Fin chainLength) (index : Fin 20) : Fin 256 :=
    (chainDigest hash text place)[index].toFin
  have hcard : Fintype.card (Fin 20 → Fin 256) < Fintype.card (Fin chainLength) := by
    rw [Fintype.card_fun, Fintype.card_fin, Fintype.card_fin, Fintype.card_fin]
    decide
  obtain ⟨first, second, hne, hoctets⟩ := Fintype.exists_ne_map_eq_of_card_lt octets hcard
  have hdigest : chainDigest hash text first = chainDigest hash text second := by
    ext index hindex
    exact congrArg Fin.val (congrFun hoctets ⟨index, hindex⟩)
  rcases Nat.lt_or_gt_of_ne (Fin.val_ne_of_ne hne) with hlt | hgt
  · exact ⟨first, second, hlt, second.isLt, hdigest⟩
  · exact ⟨second, first, hgt, first.isLt, hdigest.symm⟩

/-- Every digest of the chain is one of its first ones. -/
theorem exists_chainDigest_eq_of_lt (hash : Bytes → Digest) (text : Bytes) (place : Nat) :
    ∃ early < chainLength, chainDigest hash text early = chainDigest hash text place := by
  obtain ⟨first, second, hlt, hsecond, hdigest⟩ := exists_chainDigest_eq hash text
  induction place using Nat.strongRecOn with
  | ind place ih =>
    rcases Nat.lt_or_ge place second with hearly | hlate
    · exact ⟨place, Nat.lt_trans hearly hsecond, rfl⟩
    · -- The place lies behind the repetition, so an earlier one has the same digest.
      obtain ⟨more, rfl⟩ := Nat.exists_eq_add_of_le hlate
      obtain ⟨early, hearly, hsame⟩ := ih (first + more) (by omega)
      exact ⟨early, hearly, hsame.trans (chainDigest_add text hdigest more)⟩

theorem chainPieces_subset (text : Bytes) (count : Nat) :
    chainPieces hash pieceCount text count ⊆
      chainPieces hash pieceCount text (5 * chainLength) := by
  intro piece hpiece
  obtain ⟨place, -, rfl⟩ := List.mem_map.mp hpiece
  obtain ⟨early, hearly, hdigest⟩ := exists_chainDigest_eq_of_lt hash text (place / 5)
  refine List.mem_map.mpr ⟨5 * early + place % 5, List.mem_range.mpr (by omega), ?_⟩
  have hplace : (5 * early + place % 5) / 5 = early := by omega
  have hword : (5 * early + place % 5) % 5 = place % 5 := by omega
  rw [chainPiece, hplace, hword, hdigest, chainPiece]

/-- No number of digests names more pieces than the first ones. -/
theorem length_eraseDups_chainPieces_le (hash : Bytes → Digest) (pieceCount : UInt32)
    (text : Bytes) (count : Nat) :
    (chainPieces hash pieceCount text count).eraseDups.length ≤
      (chainPieces hash pieceCount text (5 * chainLength)).eraseDups.length := by
  apply (nodup_eraseDups _).length_le_of_subset
  intro piece hpiece
  exact List.mem_eraseDups.mpr (chainPieces_subset text count (List.mem_eraseDups.mp hpiece))

/-! ## The set -/

/-- The loop ends: after some number of digests, enough pieces are chosen. -/
def Ends (hash : Bytes → Digest) (infoHash : Digest) (host : Host) (pieceCount : UInt32)
    (size : Nat) : Prop :=
  ∃ steps, min size pieceCount.toNat ≤
    (chooseFromChain hash pieceCount (min size pieceCount.toNat) steps
      (seed infoHash host) []).length

section Ends

variable {infoHash : Digest} {host : Host} {size : Nat}
  (h : Ends hash infoHash host pieceCount size)
include h

theorem Ends.le_length :
    min size pieceCount.toNat ≤
      (chainPieces hash pieceCount (seed infoHash host) (5 * chainLength)).eraseDups.length := by
  obtain ⟨steps, hsteps⟩ := h
  rw [chooseFromChain_eq _ _ List.nodup_nil (Nat.zero_le _), List.nil_append,
    List.length_take] at hsteps
  have hfew := length_eraseDups_chainPieces_le hash pieceCount (seed infoHash host) (5 * steps)
  omega

theorem Ends.length_generateWith :
    (generateWith hash infoHash host pieceCount size).length = min size pieceCount.toNat := by
  rw [generateWith_eq, List.length_take, Nat.min_eq_left h.le_length]

/-- However many digests the loop took to end, it has chosen this set. -/
theorem Ends.chooseFromChain_eq_generateWith {steps : Nat}
    (hsteps : min size pieceCount.toNat ≤
      (chooseFromChain hash pieceCount (min size pieceCount.toNat) steps
        (seed infoHash host) []).length) :
    chooseFromChain hash pieceCount (min size pieceCount.toNat) steps (seed infoHash host) [] =
      generateWith hash infoHash host pieceCount size := by
  rw [chooseFromChain_eq _ _ List.nodup_nil (Nat.zero_le _), List.nil_append] at hsteps ⊢
  rw [List.length_take] at hsteps
  rw [generateWith_eq]
  rcases Nat.le_total (5 * steps) (5 * chainLength) with hearly | hlate
  · exact (take_eraseDups_chainPieces hearly (by omega)).symm
  · exact take_eraseDups_chainPieces hlate h.le_length

theorem Ends.of_le {smaller : Nat} (hsmaller : smaller ≤ size) :
    Ends hash infoHash host pieceCount smaller := by
  refine ⟨chainLength, ?_⟩
  have hmany := h.le_length
  rw [chooseFromChain_eq _ _ List.nodup_nil (Nat.zero_le _), List.nil_append, List.length_take]
  omega

end Ends

/-- If the loop ends, however late, it has chosen as many pieces as were asked for, or all if
there are fewer.  They are different pieces below the number of pieces, and the first that the
chain names, in order of first occurrence.  The loop then ends for a smaller set too, which is
the beginning of this one.  All IPv4 hosts of a network have the same set. -/
theorem generateWith_of_ends {infoHash : Digest} {host : Host} {size : Nat}
    (h : Ends hash infoHash host pieceCount size) :
    let pieces := generateWith hash infoHash host pieceCount size
    (∀ steps,
      let chosen := chooseFromChain hash pieceCount (min size pieceCount.toNat) steps
        (seed infoHash host) []
      min size pieceCount.toNat ≤ chosen.length → chosen = pieces) ∧
    pieces.length = min size pieceCount.toNat ∧
    pieces.Nodup ∧
    (∀ piece ∈ pieces, piece < pieceCount) ∧
    (∃ count, pieces = (chainPieces hash pieceCount (seed infoHash host) count).eraseDups) ∧
    (∀ smaller ≤ size, Ends hash infoHash host pieceCount smaller ∧
      generateWith hash infoHash host pieceCount smaller <+: pieces) ∧
    ∀ octets other : Vector UInt8 4, host = .v4 octets →
      octets.toList.take 3 = other.toList.take 3 →
      Ends hash infoHash (.v4 other) pieceCount size ∧
        generateWith hash infoHash (.v4 other) pieceCount size = pieces := by
  intro pieces
  refine ⟨fun steps => h.chooseFromChain_eq_generateWith, h.length_generateWith,
    nodup_generateWith _ _ _ _ _, ?_, ?_, ?_, ?_⟩
  · exact fun piece => lt_of_mem_generateWith
  · exact exists_generateWith_eq _ _ _ _ _
  · intro smaller hsmaller
    exact ⟨h.of_le hsmaller, isPrefix_generateWith infoHash host hsmaller⟩
  · rintro octets other rfl hnetwork
    have hseed : seed infoHash (.v4 octets) = seed infoHash (.v4 other) := by
      rw [seed, network, hnetwork, seed, network]
    exact ⟨by rwa [Ends, ← hseed], (generateWith_v4_congr hash infoHash hnetwork _ _).symm⟩

/-- Two digests are enough for seven pieces of 1313. -/
theorem generateWith_of_ends_two_digests :
    let infoHash : Digest := Vector.replicate 20 0xaa
    let pieces := generateWith Sha1.digest infoHash (.v4 #v[80, 4, 4, 200]) 1313 7
    Ends Sha1.digest infoHash (.v4 #v[80, 4, 4, 200]) 1313 7 ∧
      pieces = [1059, 431, 808, 1217, 287, 376, 1188] ∧
      generateWith Sha1.digest infoHash (.v4 #v[80, 4, 4, 200]) 1313 3 <+: pieces ∧
      generateWith Sha1.digest infoHash (.v4 #v[80, 4, 4, 7]) 1313 7 = pieces := by
  intro infoHash pieces
  let chosen := chooseFromChain Sha1.digest 1313 7 2 (seed infoHash (.v4 #v[80, 4, 4, 200])) []
  have hchosen : chosen = [1059, 431, 808, 1217, 287, 376, 1188] := by decide +kernel
  have hlong : 7 ≤ chosen.length := by
    rw [hchosen]
    decide
  have hends : Ends Sha1.digest infoHash (.v4 #v[80, 4, 4, 200]) 1313 7 := ⟨2, hlong⟩
  obtain ⟨hloop, -, -, -, -, hsmaller, hnetwork⟩ := generateWith_of_ends hends
  have hpieces : chosen = pieces := hloop 2 hlong
  obtain ⟨-, hbegins⟩ := hsmaller 3 (by decide)
  obtain ⟨-, hsame⟩ := hnetwork #v[80, 4, 4, 200] #v[80, 4, 4, 7] rfl (by decide)
  exact ⟨hends, hpieces ▸ hchosen, hbegins, hsame⟩

end AllowedFast
end PeerLink
