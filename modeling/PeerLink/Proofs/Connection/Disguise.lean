import Mathlib.Data.List.Sort
import PeerLink.Proofs.Connection.Posting
import PeerLink.Proofs.FirstOccurrence
import PeerLink.Proofs.RemotePieces

/-!
# What a disguised bitfield discloses

A disguise leaves a few pieces out of the bitfield and announces them one by one behind it.
Whatever is picked for it, a peer that hears all of the messages learns just the pieces that
we have, and it does not matter when it learns how many pieces there are.
-/

namespace PeerLink

/-! ## Picking at random -/

namespace Picker

/-- What is asked of the picks for a disguise: they are as many as wanted, all different, and
in range. -/
structure Samples (sample : Nat → Picker → Nat → List Nat × Picker) : Prop where
  length : ∀ {bound amount : Nat} (picker : Picker), amount ≤ bound →
    (sample bound picker amount).1.length = amount
  nodup : ∀ {bound amount : Nat} (picker : Picker), amount ≤ bound →
    (sample bound picker amount).1.Nodup
  lt : ∀ {bound amount : Nat} (picker : Picker), amount ≤ bound →
    ∀ index ∈ (sample bound picker amount).1, index < bound

theorem pick_cases (bound : Nat) (picks : List Nat) (picker : Picker) :
    ∃ choice, (pick bound picks picker).1 = choice :: picks ∧
      (choice = bound ∨ choice < bound + 1 ∧ choice ∉ picks) := by
  rw [pick]
  by_cases hseen : picks.contains (picker.next.1.toNat % (bound + 1)) = true
  · exact ⟨bound, if_pos hseen, .inl rfl⟩
  · refine ⟨_, if_neg hseen, .inr ⟨Nat.mod_lt _ (Nat.succ_pos bound), ?_⟩⟩
    rw [List.contains_iff_mem] at hseen
    exact hseen

/-- All numbers that are picked are below the bound, so the bound itself is always left for
the next pick. -/
theorem sample_spec {bound amount : Nat} (picker : Picker) (h : amount ≤ bound) :
    (sample bound picker amount).1.length = amount ∧ (sample bound picker amount).1.Nodup ∧
      ∀ index ∈ (sample bound picker amount).1, index < bound := by
  induction amount generalizing bound with
  | zero => exact ⟨rfl, List.nodup_nil, List.forall_mem_nil _⟩
  | succ amount ih =>
    have hfits : amount ≤ bound - 1 := Nat.le_sub_one_of_lt h
    obtain ⟨hlength, hnodup, hlt⟩ := ih hfits
    obtain ⟨choice, hpick, hchoice⟩ := pick_cases (bound - 1) (sample (bound - 1) picker amount).1
      (sample (bound - 1) picker amount).2
    have hsample : (sample bound picker (amount + 1)).1 =
        choice :: (sample (bound - 1) picker amount).1 := hpick
    have hnew : choice ∉ (sample (bound - 1) picker amount).1 := by
      rcases hchoice with rfl | ⟨-, hnew⟩
      · intro hmem
        exact Nat.lt_irrefl _ (hlt _ hmem)
      · exact hnew
    have hchosen : choice < bound := by
      rcases hchoice with rfl | ⟨hlt, -⟩ <;> omega
    have hearlier : ∀ index ∈ (sample (bound - 1) picker amount).1, index < bound :=
      fun index hindex => Nat.lt_of_lt_of_le (hlt index hindex) (Nat.sub_le bound 1)
    rw [hsample]
    exact ⟨congrArg Nat.succ hlength, List.nodup_cons.mpr ⟨hnew, hnodup⟩,
      List.forall_mem_cons.mpr ⟨hchosen, hearlier⟩⟩

theorem samples_sample : Samples sample where
  length picker h := (sample_spec picker h).1
  nodup picker h := (sample_spec picker h).2.1
  lt picker h := (sample_spec picker h).2.2

end Picker

/-! ## Taking pieces out and putting them back -/

namespace Bitfield

theorem wellSized_foldl_clear {field : Bitfield} (h : field.WellSized) (picks : List Nat) :
    (picks.foldl clear field).WellSized := by
  induction picks generalizing field with
  | nil => exact h
  | cons index rest ih => exact ih (h.clear index)

theorem size_foldl_clear (field : Bitfield) (picks : List Nat) :
    (picks.foldl clear field).size = field.size := by
  induction picks generalizing field with
  | nil => rfl
  | cons index rest ih => exact (ih (field.clear index)).trans (size_clear field index)

theorem has_foldl_clear {field : Bitfield} (h : field.WellSized) (picks : List Nat)
    (index : Nat) :
    (picks.foldl clear field).has index = (field.has index && decide (index ∉ picks)) := by
  induction picks generalizing field with
  | nil => simp
  | cons first rest ih =>
    rw [List.foldl_cons, ih (h.clear first), has_clear h, Bool.and_assoc, ← Bool.decide_and]
    simp [not_or]

theorem wellSized_foldl_set {field : Bitfield} (h : field.WellSized) (picks : List Nat) :
    (picks.foldl set field).WellSized := by
  induction picks generalizing field with
  | nil => exact h
  | cons index rest ih => exact ih (h.set index)

theorem size_foldl_set (field : Bitfield) (picks : List Nat) :
    (picks.foldl set field).size = field.size := by
  induction picks generalizing field with
  | nil => rfl
  | cons index rest ih => exact (ih (field.set index)).trans (size_set field index)

theorem has_foldl_set {field : Bitfield} (h : field.WellSized) (picks : List Nat) {index : Nat}
    (hindex : index < field.size) :
    (picks.foldl set field).has index = (field.has index || decide (index ∈ picks)) := by
  induction picks generalizing field with
  | nil => simp
  | cons first rest ih =>
    rw [List.foldl_cons, ih (h.set first) (by rwa [size_set]), has_set h,
      decide_eq_true hindex, Bool.and_true, Bool.or_assoc, ← Bool.decide_or]
    simp

/-- Pieces that are taken out and put back are there again. -/
theorem foldl_set_foldl_clear {field : Bitfield} (h : field.WellSized) {picks : List Nat}
    (hheld : ∀ index ∈ picks, field.has index = true) :
    picks.foldl set (picks.foldl clear field) = field := by
  have hcleared := wellSized_foldl_clear h picks
  have hsize := size_foldl_clear field picks
  apply eq_of_has (wellSized_foldl_set hcleared picks) h ((size_foldl_set _ picks).trans hsize)
  intro index hindex
  rw [size_foldl_set] at hindex
  rw [has_foldl_set hcleared picks hindex, has_foldl_clear h]
  by_cases hpicked : index ∈ picks
  · rw [hheld index hpicked]
    simp [hpicked]
  · simp [hpicked]

theorem has_ofPayload_toBytes {field : Bitfield} (h : field.WellSized) (index : Nat) :
    (ofPayload field.toBytes).has index = field.has index :=
  ((wellSized_ofPayload _).bitAt_eq_has index).symm.trans (h.bitAt_eq_has index)

/-- The bits that fill up the last byte are dropped once the number of pieces is known. -/
theorem resize_ofPayload_toBytes {field : Bitfield} (h : field.WellSized) :
    (ofPayload field.toBytes).resize field.size = field := by
  apply eq_of_has (wellSized_resize _ _) h (size_resize _ _)
  intro index hindex
  rw [size_resize] at hindex
  rw [has_resize (wellSized_ofPayload _), has_ofPayload_toBytes h, decide_eq_true hindex,
    Bool.true_and]

end Bitfield

/-! ## What the peer learns -/

namespace ConnectionState

variable {state : ConnectionState} {field : Bitfield} {count : Nat}

/-- Once the number of pieces is known, single pieces are added to the bitfield. -/
theorem pieces_observeAll_havePiece
    (h : state.pieces = ⟨some field, false, some count⟩) (later : List UInt32) :
    (state.observeAll (later.map .havePiece)).pieces =
      ⟨some ((later.map UInt32.toNat).foldl Bitfield.set field), false, some count⟩ := by
  induction later generalizing state field with
  | nil => exact h
  | cons index rest ih =>
    have hfirst : (state.observe (.havePiece index)).pieces =
        ⟨some (field.set index.toNat), false, some count⟩ := by
      rw [pieces_observe, h]
      rfl
    exact ih hfirst

/-- A bitfield replaces what was known before, and single pieces are added to it. -/
theorem bitfield_observeAll_of_count (state : ConnectionState) (count : Nat) (bits : Bytes)
    (later : List UInt32) :
    ((state.setPieceCount count).observeAll
      (.bitfield (.ofPayload bits) :: later.map .havePiece)).pieces.bitfield =
        some ((later.map UInt32.toNat).foldl Bitfield.set
          ((Bitfield.ofPayload bits).resize count)) := by
  have hcount : (state.setPieceCount count).pieces.pieceCount = some count :=
    RemotePieces.pieceCount_setPieceCount _ _
  have hfirst : ((state.setPieceCount count).observe (.bitfield (.ofPayload bits))).pieces =
      ⟨some ((Bitfield.ofPayload bits).resize count), false, some count⟩ := by
    rw [pieces_observe]
    change RemotePieces.replace _ _ = _
    rw [RemotePieces.replace, hcount]
  exact congrArg RemotePieces.bitfield (pieces_observeAll_havePiece hfirst later)

/-- The same is learned if the number of pieces becomes known behind the messages. -/
theorem bitfield_setPieceCount_of_observeAll (hunknown : state.pieces.pieceCount = none)
    (count : Nat) (bits : Bytes) (later : List UInt32) :
    ((state.observeAll (.bitfield (.ofPayload bits) :: later.map .havePiece)).setPieceCount
      count).pieces.bitfield =
        some ((later.map UInt32.toNat).foldl Bitfield.set
          ((Bitfield.ofPayload bits).resize count)) := by
  have hfirst : (state.observe (.bitfield (.ofPayload bits))).pieces =
      ⟨some (.ofPayload bits), false, none⟩ := by
    rw [pieces_observe]
    change RemotePieces.replace _ _ = _
    rw [RemotePieces.replace, hunknown]
  have hunknown' : (state.observe (.bitfield (.ofPayload bits))).pieces.pieceCount = none := by
    rw [hfirst]
  have hsized : (state.observe (.bitfield (.ofPayload bits))).pieces.IsSized := by
    rw [hfirst]
    exact RemotePieces.isSized_of_some (Bitfield.wellSized_ofPayload bits) _ _
  have hevents : ∀ event ∈ later.map Event.havePiece, event.IsSized := by
    intro event hevent
    obtain ⟨index, -, rfl⟩ := List.mem_map.mp hevent
    trivial
  have hlate := learning_eq hunknown' hsized hevents count []
  rw [List.append_nil] at hlate
  have hlearned : ((state.observe (.bitfield (.ofPayload bits))).setPieceCount count).pieces =
      ⟨some ((Bitfield.ofPayload bits).resize count), false, some count⟩ := by
    rw [setPieceCount, hfirst]
    rfl
  exact congrArg RemotePieces.bitfield
    ((congrArg pieces hlate).trans (pieces_observeAll_havePiece hlearned later))

end ConnectionState

namespace Connection

variable {X Y : Type}

section Receiving

variable [Capability X] [SubProtocol Y]

/-- Messages of the base protocol are folded into the record, and never refused. -/
theorem dispatchAll_of_base? (c : Connection X Y) {messages : List Message}
    (hbase : ∀ message ∈ messages, message.base?.isSome = true)
    (hvalid : ∀ message ∈ messages, message.toFrame.IsValid) :
    (c.dispatchAll (messages.map Message.toFrame)).2 = none ∧
      (c.dispatchAll (messages.map Message.toFrame)).1.state =
        c.state.observeAll (messages.filterMap Message.base?) := by
  induction messages generalizing c with
  | nil => exact ⟨rfl, rfl⟩
  | cons message rest ih =>
    obtain ⟨hmessage, hrest⟩ := List.forall_mem_cons.mp hbase
    obtain ⟨hframe, hframes⟩ := List.forall_mem_cons.mp hvalid
    obtain ⟨event, hevent⟩ := Option.isSome_iff_exists.mp hmessage
    have hfirst : c.dispatch message.toFrame =
        c.absorb (c.session.tell event) := by
      rw [dispatch_eq_absorb, c.session.hear_of_base? hevent hframe]
    rw [List.map_cons, dispatchAll, hfirst, List.filterMap_cons_some hevent]
    exact ih _ hrest hframes

end Receiving

/-- Any peer that hears the messages knows just these pieces in the end, whether it learns
their number before or after it hears them. -/
def Teach (messages : List Message) (pieces : Bitfield) : Prop :=
  ∀ {X Y : Type} [Capability X] [SubProtocol Y] (peer : Connection X Y),
    let before := (peer.setPieceCount pieces.size).dispatchAll (messages.map Message.toFrame)
    let after := peer.dispatchAll (messages.map Message.toFrame)
    (before.2 = none ∧ before.1.state.pieces.bitfield = some pieces) ∧
      (peer.state.pieces.pieceCount = none →
        after.2 = none ∧ (after.1.setPieceCount pieces.size).state.pieces.bitfield = some pieces)

theorem teach_of_foldl_set {bits : Bytes} {later : List UInt32} {pieces : Bitfield}
    (hbits : bits.length + 1 < 2 ^ 32)
    (h : (later.map UInt32.toNat).foldl Bitfield.set
      ((Bitfield.ofPayload bits).resize pieces.size) = pieces) :
    Teach (.bitfield bits :: later.map .havePiece) pieces := by
  intro X Y _ _ peer
  have hbase : ∀ message ∈ Message.bitfield bits :: later.map .havePiece,
      message.base?.isSome = true :=
    List.forall_mem_cons.mpr ⟨rfl, List.forall_mem_map.mpr fun _ _ => rfl⟩
  have hvalid : ∀ message ∈ Message.bitfield bits :: later.map .havePiece,
      message.toFrame.IsValid :=
    List.forall_mem_cons.mpr
      ⟨Frame.isValid_ofCommand hbits _, List.forall_mem_map.mpr fun _ _ => rfl⟩
  have hevents : (Message.bitfield bits :: later.map .havePiece).filterMap Message.base? =
      .bitfield (.ofPayload bits) :: later.map .havePiece := by
    have hlater : (later.map Message.havePiece).filterMap Message.base? =
        later.map .havePiece := by
      rw [List.filterMap_map, ← List.filterMap_eq_map]
      rfl
    exact congrArg _ hlater
  constructor
  · obtain ⟨hresult, hstate⟩ := (peer.setPieceCount pieces.size).dispatchAll_of_base? hbase hvalid
    refine ⟨hresult, ?_⟩
    rw [hstate, hevents]
    exact (ConnectionState.bitfield_observeAll_of_count _ _ _ _).trans (congrArg some h)
  · intro hunknown
    obtain ⟨hresult, hstate⟩ := peer.dispatchAll_of_base? hbase hvalid
    refine ⟨hresult, ?_⟩
    rw [setPieceCount, hstate, hevents]
    exact (ConnectionState.bitfield_setPieceCount_of_observeAll hunknown _ _ _).trans
      (congrArg some h)

/-! ## Hidden pieces -/

/-- The pieces that are left out of the bitfield, in ascending order. -/
def hidden (pieces : Bitfield) (picks : List Nat) : List Nat :=
  (picks.filter pieces.has).eraseDups.mergeSort

/-- The messages that announce pieces while hiding some of them. -/
def concealing (pieces : Bitfield) (hidden : List Nat) : List Message :=
  .bitfield (hidden.foldl Bitfield.clear pieces).toBytes ::
    (hidden.map UInt32.ofNat).map .havePiece

theorem disguise_eq (pieces : Bitfield) (picks : List Nat) :
    disguise pieces picks = concealing pieces (hidden pieces picks) := by
  rw [concealing, List.map_map]
  rfl

/-- What is hidden is held, and comes in ascending order. -/
structure Hides (pieces : Bitfield) (hidden : List Nat) : Prop where
  held : ∀ index ∈ hidden, pieces.has index = true
  ascending : hidden.Pairwise (· < ·)

theorem hidden_perm (pieces : Bitfield) {picks : List Nat} (h : picks.Nodup) :
    (hidden pieces picks).Perm (picks.filter pieces.has) := by
  rw [hidden, eraseDups_of_nodup (h.filter _)]
  exact List.mergeSort_perm _ _

theorem hides_hidden (pieces : Bitfield) {picks : List Nat} (h : picks.Nodup) :
    Hides pieces (hidden pieces picks) := by
  have hperm := hidden_perm pieces h
  constructor
  · intro index hindex
    exact (List.mem_filter.mp (hperm.mem_iff.mp hindex)).2
  · have hnodup : (hidden pieces picks).Nodup := hperm.nodup_iff.mpr (h.filter _)
    have hsorted : (hidden pieces picks).Pairwise (· ≤ ·) := by
      have hle : (hidden pieces picks).Pairwise fun a b => decide (a ≤ b) = true :=
        List.pairwise_mergeSort (fun a b c => by simpa using Nat.le_trans)
          (fun a b => by simpa using Nat.le_total a b) _
      exact hle.imp of_decide_eq_true
    exact hsorted.imp₂ (fun _ _ hle hne => Nat.lt_of_le_of_ne hle hne) hnodup

theorem length_hidden_le (pieces : Bitfield) {picks : List Nat} (h : picks.Nodup) :
    (hidden pieces picks).length ≤ picks.length := by
  rw [(hidden_perm pieces h).length_eq]
  exact List.length_filter_le _ _

/-- Hidden pieces fit the field of their index, so they are announced as they are. -/
theorem map_toNat_ofNat {pieces : Bitfield} {hidden : List Nat} (h : Hides pieces hidden)
    (hsize : pieces.size ≤ 2 ^ 32) : (hidden.map UInt32.ofNat).map UInt32.toNat = hidden := by
  have hsame : ∀ index ∈ hidden, (UInt32.ofNat index).toNat = index := by
    intro index hindex
    have hheld := h.held index hindex
    rw [Bitfield.has_eq, Bool.and_eq_true, decide_eq_true_eq] at hheld
    exact Nat.mod_eq_of_lt (Nat.lt_of_lt_of_le hheld.1 hsize)
  rw [List.map_map]
  exact (List.map_congr_left hsame).trans (List.map_id' hidden)

/-- A peer learns the hidden pieces as well as all others. -/
theorem Hides.teach {pieces : Bitfield} {hidden : List Nat} (h : Hides pieces hidden)
    (hpieces : pieces.WellSized) (hsize : pieces.size ≤ 2 ^ 32) :
    Teach (concealing pieces hidden) pieces := by
  have hcleared := Bitfield.wellSized_foldl_clear hpieces hidden
  have hcount := Bitfield.size_foldl_clear pieces hidden
  apply teach_of_foldl_set
  · have hlength : (hidden.foldl Bitfield.clear pieces).toBytes.length =
        Bitfield.byteCount pieces.size := by
      rw [Bitfield.toBytes, Array.length_toList, hcleared.size_bytes, hcount]
    rw [hlength, Bitfield.byteCount]
    omega
  · rw [map_toNat_ofNat h hsize, ← hcount, Bitfield.resize_ofPayload_toBytes hcleared]
    exact Bitfield.foldl_set_foldl_clear hpieces h.held

/-! ## Announcing pieces -/

variable {c : Connection X Y}

theorem sendAll_singleton (c : Connection X Y) (now : Nat) (message : Message) :
    c.sendAll now [message] = c.send now message := by
  rw [sendAll]
  rcases c.send now message with ⟨sent, result | result⟩ <;> rfl

theorem sendAll_of_isDown_eq_false (h : c.isDown = false) (now : Nat) (messages : List Message) :
    (c.sendAll now messages).2 = .ok () := by
  induction messages generalizing c with
  | nil => rfl
  | cons message rest ih =>
    have hsame := isDown_eq_of_standing (standing_send c now message)
    have hdown : ¬ c.isDown = true := by simp [h]
    have hlater := ih (hsame.trans h)
    rw [send, if_neg hdown] at hlater
    rw [sendAll, send, if_neg hdown]
    exact hlater

/-- Whatever is picked, announcing pieces is sending a bitfield with some of them hidden. -/
theorem exists_hides_sendBitfieldWith {sample : Nat → Picker → Nat → List Nat × Picker}
    (hsample : Picker.Samples sample) (c : Connection X Y) (now : Nat) (pieces : Bitfield)
    (disguised : Bool) :
    ∃ hidden picker, Hides pieces hidden ∧ hidden.length ≤ disguiseSize ∧
      (hidden ≠ [] → disguised = true ∧ undisguisedSize < pieces.size) ∧
      c.sendBitfieldWith sample now pieces disguised =
        { c with picker }.sendAll now (concealing pieces hidden) := by
  rw [sendBitfieldWith]
  by_cases hdisguised : (disguised && undisguisedSize < pieces.size) = true
  · have hamount := Nat.min_le_right disguiseSize pieces.size
    have hnodup := hsample.nodup c.picker hamount
    have hlength := hsample.length c.picker hamount
    rw [if_pos hdisguised]
    refine ⟨_, (sample pieces.size c.picker (min disguiseSize pieces.size)).2,
      hides_hidden pieces hnodup, ?_, ?_, ?_⟩
    · have hle := length_hidden_le pieces hnodup
      omega
    · intro _
      simpa using hdisguised
    · rw [← disguise_eq]
  · rw [if_neg hdisguised]
    refine ⟨[], c.picker, ⟨List.forall_mem_nil _, List.Pairwise.nil⟩, Nat.zero_le _, ?_, ?_⟩
    · intro h
      exact absurd rfl h
    · exact (sendAll_singleton c now (.bitfield pieces.toBytes)).symm

/-- Announcing pieces on a live connection queues one bitfield and then single pieces.  These
are few, in ascending order, all held, and left out of the bitfield; and there are none unless
the bitfield is large and is to be disguised.  A peer that hears all of it knows just the
pieces that we have. -/
theorem sendBitfieldWith_discloses {sample : Nat → Picker → Nat → List Nat × Picker}
    (hsample : Picker.Samples sample) (hlive : c.isDown = false) (now : Nat) {pieces : Bitfield}
    (hpieces : pieces.WellSized) (hsize : pieces.size ≤ 2 ^ 32) (disguised : Bool) :
    ∃ (bits : Bytes) (later : List UInt32),
      let messages := Message.bitfield bits :: later.map .havePiece
      let sent := c.sendBitfieldWith sample now pieces disguised
      sent.2 = .ok () ∧
      sent.1.outbox.pending = c.outbox.pending ++ messages.map Message.encode ∧
      later.Pairwise (· < ·) ∧ later.length ≤ 16 ∧
      (∀ index ∈ later, pieces.has index.toNat = true ∧
        (Bitfield.ofPayload bits).has index.toNat = false) ∧
      (later ≠ [] → disguised = true ∧ 32 < pieces.size) ∧
      Teach messages pieces := by
  obtain ⟨hidden, picker, hhides, hlength, hnone, hsent⟩ :=
    exists_hides_sendBitfieldWith hsample c now pieces disguised
  have hlive' : ({ c with picker } : Connection X Y).isDown = false := hlive
  have hposts := sendAll_posts { c with picker } now (concealing pieces hidden)
  rw [hlive', if_neg Bool.false_ne_true] at hposts
  have hindices := map_toNat_ofNat hhides hsize
  have hresult : (c.sendBitfieldWith sample now pieces disguised).2 = .ok () := by
    rw [hsent]
    exact sendAll_of_isDown_eq_false hlive' now _
  have hpending : (c.sendBitfieldWith sample now pieces disguised).1.outbox.pending =
      c.outbox.pending ++ (concealing pieces hidden).map Message.encode := by
    rw [hsent]
    exact hposts.pending
  refine ⟨(hidden.foldl Bitfield.clear pieces).toBytes, hidden.map UInt32.ofNat, hresult, hpending,
    ?_, ?_, ?_, ?_, hhides.teach hpieces hsize⟩
  · have hascending := hhides.ascending
    rw [← hindices] at hascending
    exact (List.pairwise_map.mp hascending).imp UInt32.lt_iff_toNat_lt.mpr
  · rw [List.length_map]
    exact hlength
  · intro index hindex
    have hmem : index.toNat ∈ hidden := by
      rw [← hindices]
      exact List.mem_map_of_mem hindex
    constructor
    · exact hhides.held _ hmem
    · rw [Bitfield.has_ofPayload_toBytes (Bitfield.wellSized_foldl_clear hpieces hidden),
        Bitfield.has_foldl_clear hpieces, decide_eq_false (not_not_intro hmem), Bool.and_false]
  · intro hlater
    apply hnone
    rintro rfl
    exact hlater rfl

theorem sendBitfieldWith_discloses_of_full :
    let c : Connection Empty Empty := .new ⟨true, [], [], [], []⟩ .standard 0
    let pieces := Bitfield.full 40
    let disguised := true
    ∃ (bits : Bytes) (later : List UInt32),
      let messages := Message.bitfield bits :: later.map .havePiece
      let sent := c.sendBitfieldWith Picker.sample 0 pieces disguised
      sent.2 = .ok () ∧
      sent.1.outbox.pending = c.outbox.pending ++ messages.map Message.encode ∧
      later.Pairwise (· < ·) ∧ later.length ≤ 16 ∧
      (∀ index ∈ later, pieces.has index.toNat = true ∧
        (Bitfield.ofPayload bits).has index.toNat = false) ∧
      (later ≠ [] → disguised = true ∧ 32 < pieces.size) ∧
      Teach messages pieces :=
  sendBitfieldWith_discloses Picker.samples_sample (by decide) 0 (Bitfield.wellSized_full 40)
    (by decide) true

end Connection
end PeerLink
