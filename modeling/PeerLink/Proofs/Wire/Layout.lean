import PeerLink.Proofs.Wire.Exactness
import PeerLink.Wire.Inbound

/-!
# The layout of base commands

Every frame that can arrive is of one of three kinds: it says one thing to the owner of the
connection, or its payload is too short for what its command would say, or its command is
none of the ten that the connection reads itself.  The kind is a matter of the command and
of the length of the payload alone.
-/

namespace PeerLink

/-! ## Fields of a payload -/

namespace Bytes

/-- The number that bytes spell, most significant first. -/
def number (bytes : Bytes) : Nat := bytes.foldl (fun n byte => n * 256 + byte.toNat) 0

/-- The number that the `width` bytes behind the first `start` ones spell. -/
def numberAt (bytes : Bytes) (start width : Nat) : Nat := number ((bytes.drop start).take width)

/-- The 32-bit word that four bytes behind the first `start` ones spell. -/
def wordAt (bytes : Bytes) (start : Nat) : UInt32 := UInt32.ofNat (numberAt bytes start 4)

theorem numberAt_drop (bytes : Bytes) (first start width : Nat) :
    numberAt (bytes.drop first) start width = numberAt bytes (first + start) width := by
  rw [numberAt, numberAt, List.drop_drop]

theorem takeUInt32?_of_le {bytes : Bytes} (h : 4 ≤ bytes.length) :
    ∃ word : UInt32, takeUInt32? bytes = some (word, bytes.drop 4) ∧
      word.toNat = numberAt bytes 0 4 := by
  match bytes, h with
  | a :: b :: c :: d :: rest, _ =>
    have ha := a.toNat_lt
    have hb := b.toNat_lt
    have hc := c.toNat_lt
    have hd := d.toNat_lt
    have hnumber : numberAt (a :: b :: c :: d :: rest) 0 4 =
        (((0 * 256 + a.toNat) * 256 + b.toNat) * 256 + c.toNat) * 256 + d.toNat := rfl
    refine ⟨word32 a b c d, rfl, ?_⟩
    rw [word32, UInt32.toNat_ofNat', hnumber]
    omega

theorem takeUInt16?_of_le {bytes : Bytes} (h : 2 ≤ bytes.length) :
    ∃ word : UInt16, takeUInt16? bytes = some (word, bytes.drop 2) ∧
      word.toNat = numberAt bytes 0 2 := by
  match bytes, h with
  | a :: b :: rest, _ =>
    have ha := a.toNat_lt
    have hb := b.toNat_lt
    have hnumber : numberAt (a :: b :: rest) 0 2 = (0 * 256 + a.toNat) * 256 + b.toNat := rfl
    refine ⟨word16 a b, rfl, ?_⟩
    rw [word16, UInt16.toNat_ofNat', hnumber]
    omega

theorem length_of_takeUInt32? {bytes rest : Bytes} {word : UInt32}
    (h : takeUInt32? bytes = some (word, rest)) : bytes.length = 4 + rest.length := by
  rw [eq_of_takeUInt32? h, List.length_append, length_ofUInt32]

theorem takeUInt32?_of_lt {bytes : Bytes} (h : bytes.length < 4) : takeUInt32? bytes = none := by
  match bytes, h with
  | [], _ | [_], _ | [_, _], _ | [_, _, _], _ => rfl

theorem takeUInt16?_of_lt {bytes : Bytes} (h : bytes.length < 2) : takeUInt16? bytes = none := by
  match bytes, h with
  | [], _ | [_], _ => rfl

end Bytes

namespace BlockRequest

/-- The payload begins with the three words of the range. -/
structure IsAtFront (range : BlockRequest) (payload : Bytes) : Prop where
  index : range.index.toNat = Bytes.numberAt payload 0 4
  begin : range.begin.toNat = Bytes.numberAt payload 4 4
  length : range.length.toNat = Bytes.numberAt payload 8 4

theorem IsAtFront.unique {range other : BlockRequest} {payload : Bytes}
    (h : range.IsAtFront payload) (h' : other.IsAtFront payload) : range = other := by
  obtain ⟨index, begin, length⟩ := range
  obtain ⟨index', begin', length'⟩ := other
  obtain rfl : index = index' := UInt32.toNat_inj.mp (h.index.trans h'.index.symm)
  obtain rfl : begin = begin' := UInt32.toNat_inj.mp (h.begin.trans h'.begin.symm)
  obtain rfl : length = length' := UInt32.toNat_inj.mp (h.length.trans h'.length.symm)
  rfl

theorem decode?_of_le {payload : Bytes} (h : 12 ≤ payload.length) :
    ∃ range, decode? payload = some range ∧ range.IsAtFront payload := by
  have hsecond : 4 ≤ (payload.drop 4).length := by
    rw [List.length_drop]
    omega
  have hthird : 4 ≤ ((payload.drop 4).drop 4).length := by
    rw [List.length_drop, List.length_drop]
    omega
  obtain ⟨index, hindex, hindexAt⟩ := Bytes.takeUInt32?_of_le (Nat.le_trans (by decide) h)
  obtain ⟨begin, hbegin, hbeginAt⟩ := Bytes.takeUInt32?_of_le hsecond
  obtain ⟨length, hlength, hlengthAt⟩ := Bytes.takeUInt32?_of_le hthird
  rw [Bytes.numberAt_drop] at hbeginAt
  rw [Bytes.numberAt_drop, Bytes.numberAt_drop] at hlengthAt
  refine ⟨⟨index, begin, length⟩, ?_, ⟨hindexAt, hbeginAt, hlengthAt⟩⟩
  simp only [decode?, hindex, hbegin, hlength, Option.bind_eq_bind, Option.bind_some,
    Option.pure_def]

theorem decode?_of_lt {payload : Bytes} (h : payload.length < 12) : decode? payload = none := by
  rw [Option.eq_none_iff_forall_ne_some]
  intro range hrange
  obtain ⟨⟨index, second⟩, hindex, hrange⟩ := Option.bind_eq_some_iff.mp hrange
  obtain ⟨⟨begin, third⟩, hbegin, hrange⟩ := Option.bind_eq_some_iff.mp hrange
  obtain ⟨⟨length, rest⟩, hlength, -⟩ := Option.bind_eq_some_iff.mp hrange
  have := Bytes.length_of_takeUInt32? hindex
  have := Bytes.length_of_takeUInt32? hbegin
  have := Bytes.length_of_takeUInt32? hlength
  omega

end BlockRequest

namespace Block

/-- The payload begins with the two words of the place of the block, and goes on with its
bytes. -/
structure IsPayload (block : Block) (payload : Bytes) : Prop where
  index : block.index.toNat = Bytes.numberAt payload 0 4
  begin : block.begin.toNat = Bytes.numberAt payload 4 4
  data : block.data = payload.drop 8

theorem IsPayload.unique {block other : Block} {payload : Bytes} (h : block.IsPayload payload)
    (h' : other.IsPayload payload) : block = other := by
  obtain ⟨index, begin, data⟩ := block
  obtain ⟨index', begin', data'⟩ := other
  obtain rfl : index = index' := UInt32.toNat_inj.mp (h.index.trans h'.index.symm)
  obtain rfl : begin = begin' := UInt32.toNat_inj.mp (h.begin.trans h'.begin.symm)
  obtain rfl : data = data' := h.data.trans h'.data.symm
  rfl

theorem decode?_of_le {payload : Bytes} (h : 8 ≤ payload.length) :
    ∃ block, decode? payload = some block ∧ block.IsPayload payload := by
  have hsecond : 4 ≤ (payload.drop 4).length := by
    rw [List.length_drop]
    omega
  obtain ⟨index, hindex, hindexAt⟩ := Bytes.takeUInt32?_of_le (Nat.le_trans (by decide) h)
  obtain ⟨begin, hbegin, hbeginAt⟩ := Bytes.takeUInt32?_of_le hsecond
  rw [Bytes.numberAt_drop] at hbeginAt
  refine ⟨⟨index, begin, (payload.drop 4).drop 4⟩, ?_, ⟨hindexAt, hbeginAt, List.drop_drop ..⟩⟩
  simp only [decode?, hindex, hbegin, Option.bind_eq_bind, Option.bind_some, Option.pure_def]

theorem decode?_of_lt {payload : Bytes} (h : payload.length < 8) : decode? payload = none := by
  rw [Option.eq_none_iff_forall_ne_some]
  intro block hblock
  obtain ⟨⟨index, second⟩, hindex, hblock⟩ := Option.bind_eq_some_iff.mp hblock
  obtain ⟨⟨begin, rest⟩, hbegin, -⟩ := Option.bind_eq_some_iff.mp hblock
  have := Bytes.length_of_takeUInt32? hindex
  have := Bytes.length_of_takeUInt32? hbegin
  omega

end Block

/-! ## Kinds of frames -/

namespace Frame

/-- What a frame says that belongs to the connection itself: a keep-alive and the commands 0
to 3 whatever their payload is, and the commands 4 to 9 if all of their fields are there.
Bytes behind the fields say nothing, and a bitfield may have any length. -/
inductive Tells : Frame → Event → Prop
  | keepAlive : Tells .keepAlive .keepAlive
  | choke {length : UInt32} {payload : Bytes} : Tells (.message 0 length payload) .choke
  | unchoke {length : UInt32} {payload : Bytes} : Tells (.message 1 length payload) .unchoke
  | interested {length : UInt32} {payload : Bytes} : Tells (.message 2 length payload) .interested
  | notInterested {length : UInt32} {payload : Bytes} :
    Tells (.message 3 length payload) .notInterested
  | havePiece {length index : UInt32} {payload : Bytes} (hlong : 4 ≤ payload.length)
      (hindex : index.toNat = Bytes.numberAt payload 0 4) :
    Tells (.message 4 length payload) (.havePiece index)
  | bitfield {length : UInt32} {payload : Bytes} :
    Tells (.message 5 length payload) (.bitfield ⟨payload.toArray, payload.length * 8⟩)
  | request {length : UInt32} {payload : Bytes} {range : BlockRequest}
      (hlong : 12 ≤ payload.length) (hrange : range.IsAtFront payload) :
    Tells (.message 6 length payload) (.request range)
  | piece {length : UInt32} {payload : Bytes} {block : Block} (hlong : 8 ≤ payload.length)
      (hblock : block.IsPayload payload) : Tells (.message 7 length payload) (.piece block)
  | cancel {length : UInt32} {payload : Bytes} {range : BlockRequest}
      (hlong : 12 ≤ payload.length) (hrange : range.IsAtFront payload) :
    Tells (.message 8 length payload) (.cancel range)
  | port {length : UInt32} {payload : Bytes} {number : UInt16} (hlong : 2 ≤ payload.length)
      (hnumber : number.toNat = Bytes.numberAt payload 0 2) :
    Tells (.message 9 length payload) (.port number)

/-- The frame has a command with fields, and its payload is too short for them. -/
inductive IsShort : Frame → Prop
  | havePiece {length : UInt32} {payload : Bytes} (hshort : payload.length < 4) :
    IsShort (.message 4 length payload)
  | request {length : UInt32} {payload : Bytes} (hshort : payload.length < 12) :
    IsShort (.message 6 length payload)
  | piece {length : UInt32} {payload : Bytes} (hshort : payload.length < 8) :
    IsShort (.message 7 length payload)
  | cancel {length : UInt32} {payload : Bytes} (hshort : payload.length < 12) :
    IsShort (.message 8 length payload)
  | port {length : UInt32} {payload : Bytes} (hshort : payload.length < 2) :
    IsShort (.message 9 length payload)

variable {frame : Frame} {event : Event}

theorem Tells.id_lt {id : UInt8} (h : frame.Tells event) (hid : frame.id? = some id) : id < 10 := by
  cases h with
  | keepAlive => cases hid
  | _ =>
    obtain rfl := Option.some.inj hid
    decide

theorem IsShort.id_lt {id : UInt8} (h : frame.IsShort) (hid : frame.id? = some id) : id < 10 := by
  cases h with
  | _ =>
    obtain rfl := Option.some.inj hid
    decide

theorem Tells.not_isShort (h : frame.Tells event) : ¬ frame.IsShort := by
  intro hshort
  cases h with
  | havePiece hlong | request hlong | piece hlong | cancel hlong | port hlong =>
    cases hshort
    omega
  | _ => cases hshort

theorem Tells.unique {other : Event} (h : frame.Tells event) (h' : frame.Tells other) :
    event = other := by
  cases h with
  | havePiece _ hindex =>
    cases h' with
    | havePiece _ hindex' => rw [UInt32.toNat_inj.mp (hindex.trans hindex'.symm)]
  | request _ hrange =>
    cases h' with
    | request _ hrange' => rw [hrange.unique hrange']
  | piece _ hblock =>
    cases h' with
    | piece _ hblock' => rw [hblock.unique hblock']
  | cancel _ hrange =>
    cases h' with
    | cancel _ hrange' => rw [hrange.unique hrange']
  | port _ hnumber =>
    cases h' with
    | port _ hnumber' => rw [UInt16.toNat_inj.mp (hnumber.trans hnumber'.symm)]
  | _ =>
    cases h'
    rfl

/-- Every frame says something, or is too short for its command, or has a command that the
connection does not read itself. -/
theorem tells_or_isShort_or_other (frame : Frame) :
    (∃ event, frame.Tells event) ∨ frame.IsShort ∨
      ∃ id length payload, frame = .message id length payload ∧ 10 ≤ id := by
  cases frame with
  | keepAlive => exact .inl ⟨_, .keepAlive⟩
  | message id length payload =>
    by_cases hid : 10 ≤ id
    · exact .inr (.inr ⟨id, length, payload, rfl, hid⟩)
    · have hall : ∀ id : Fin 256, ¬ 10 ≤ UInt8.ofFin id →
          (Command.ofByte? (UInt8.ofFin id)).isSome := by decide +kernel
      have hknown : (Command.ofByte? id).isSome := hall id.toFin hid
      obtain ⟨command, hcommand⟩ := Option.isSome_iff_exists.mp hknown
      obtain rfl := Command.ofByte?_eq_some_iff.mp hcommand
      cases command with
      | choke => exact .inl ⟨_, .choke⟩
      | unchoke => exact .inl ⟨_, .unchoke⟩
      | interested => exact .inl ⟨_, .interested⟩
      | notInterested => exact .inl ⟨_, .notInterested⟩
      | havePiece =>
        rcases Nat.lt_or_ge payload.length 4 with hshort | hlong
        · exact .inr (.inl (.havePiece hshort))
        · obtain ⟨index, -, hindex⟩ := Bytes.takeUInt32?_of_le hlong
          exact .inl ⟨_, .havePiece hlong hindex⟩
      | bitfield => exact .inl ⟨_, .bitfield⟩
      | request =>
        rcases Nat.lt_or_ge payload.length 12 with hshort | hlong
        · exact .inr (.inl (.request hshort))
        · obtain ⟨range, -, hrange⟩ := BlockRequest.decode?_of_le hlong
          exact .inl ⟨_, .request hlong hrange⟩
      | piece =>
        rcases Nat.lt_or_ge payload.length 8 with hshort | hlong
        · exact .inr (.inl (.piece hshort))
        · obtain ⟨block, -, hblock⟩ := Block.decode?_of_le hlong
          exact .inl ⟨_, .piece hlong hblock⟩
      | cancel =>
        rcases Nat.lt_or_ge payload.length 12 with hshort | hlong
        · exact .inr (.inl (.cancel hshort))
        · obtain ⟨range, -, hrange⟩ := BlockRequest.decode?_of_le hlong
          exact .inl ⟨_, .cancel hlong hrange⟩
      | port =>
        rcases Nat.lt_or_ge payload.length 2 with hshort | hlong
        · exact .inr (.inl (.port hshort))
        · obtain ⟨number, -, hnumber⟩ := Bytes.takeUInt16?_of_le hlong
          exact .inl ⟨_, .port hlong hnumber⟩
      | _ => exact absurd (by decide) hid

end Frame

/-! ## What is read -/

namespace Inbound

variable {id : UInt8} {length : UInt32} {payload : Bytes} {event : Event}

theorem pieceIndex_of_le {what : String} {index : UInt32} (hlong : 4 ≤ payload.length)
    (hindex : index.toNat = Bytes.numberAt payload 0 4) : pieceIndex what payload = .ok index := by
  obtain ⟨word, hword, hnumber⟩ := Bytes.takeUInt32?_of_le hlong
  rw [pieceIndex, hword, UInt32.toNat_inj.mp (hindex.trans hnumber.symm)]
  rfl

theorem range_of_le {what : String} {wanted : BlockRequest} (hlong : 12 ≤ payload.length)
    (hwanted : wanted.IsAtFront payload) : range what payload = .ok wanted := by
  obtain ⟨found, hfound, hfront⟩ := BlockRequest.decode?_of_le hlong
  rw [range, hfound, hwanted.unique hfront]
  rfl

theorem block_of_le {data : Block} (hlong : 8 ≤ payload.length) (hdata : data.IsPayload payload) :
    block payload = .ok data := by
  obtain ⟨found, hfound, hpayload⟩ := Block.decode?_of_le hlong
  rw [block, hfound, hdata.unique hpayload]
  rfl

theorem port_of_le {number : UInt16} (hlong : 2 ≤ payload.length)
    (hnumber : number.toNat = Bytes.numberAt payload 0 2) : port payload = .ok number := by
  obtain ⟨word, hword, hspelled⟩ := Bytes.takeUInt16?_of_le hlong
  rw [port, hword, UInt16.toNat_inj.mp (hnumber.trans hspelled.symm)]
  rfl

theorem pieceIndex_of_lt (hshort : payload.length < 4) (what : String) :
    pieceIndex what payload = .error (.malformedPayload (.tooShort what 4 payload.length)) := by
  rw [pieceIndex, Bytes.takeUInt32?_of_lt hshort]
  rfl

theorem range_of_lt (hshort : payload.length < 12) (what : String) :
    range what payload = .error (.malformedPayload (.tooShort what 12 payload.length)) := by
  rw [range, BlockRequest.decode?_of_lt hshort]
  rfl

/-- What a frame says is a flag, or it is read from the payload. -/
theorem flag_or_read_of_tells (h : (Frame.message id length payload).Tells event)
    (hvalid : (Frame.message id length payload).IsValid) :
    (Command.ofByte? id).bind flag? = some event ∨
      (Command.ofByte? id).bind flag? = none ∧ read? id length payload = some (.ok event) := by
  cases h with
  | havePiece hlong hindex =>
    exact .inr ⟨rfl, congrArg (fun read => some (Event.havePiece <$> read))
      (pieceIndex_of_le hlong hindex)⟩
  | bitfield =>
    have hlength : payload.length = length.toNat - 1 := Nat.eq_sub_of_add_eq hvalid.symm
    exact .inr ⟨rfl, congrArg (fun read => some (Event.bitfield <$> read)) (if_pos hlength)⟩
  | request hlong hrange =>
    exact .inr ⟨rfl, congrArg (fun read => some (Event.request <$> read))
      (range_of_le hlong hrange)⟩
  | piece hlong hblock =>
    exact .inr ⟨rfl, congrArg (fun read => some (Event.piece <$> read)) (block_of_le hlong hblock)⟩
  | cancel hlong hrange =>
    exact .inr ⟨rfl, congrArg (fun read => some (Event.cancel <$> read)) (range_of_le hlong hrange)⟩
  | port hlong hnumber =>
    exact .inr ⟨rfl, congrArg (fun read => some (Event.port <$> read)) (port_of_le hlong hnumber)⟩
  | _ => exact .inl rfl

theorem read?_of_isShort (h : (Frame.message id length payload).IsShort) :
    (Command.ofByte? id).bind flag? = none ∧
      ∃ failure, read? id length payload = some (.error failure) := by
  cases h with
  | havePiece hshort =>
    exact ⟨rfl, _, congrArg (fun read => some (Event.havePiece <$> read))
      (pieceIndex_of_lt hshort "have")⟩
  | request hshort =>
    exact ⟨rfl, _, congrArg (fun read => some (Event.request <$> read))
      (range_of_lt hshort "request")⟩
  | piece hshort =>
    have hread : block payload = orTooShort "piece" 8 payload none := by
      rw [block, Block.decode?_of_lt hshort]
    exact ⟨rfl, _, congrArg (fun read => some (Event.piece <$> read)) hread⟩
  | cancel hshort =>
    exact ⟨rfl, _, congrArg (fun read => some (Event.cancel <$> read))
      (range_of_lt hshort "request")⟩
  | port hshort =>
    have hread : port payload = orTooShort "port" 2 payload none := by
      rw [port, Bytes.takeUInt16?_of_lt hshort]
      rfl
    exact ⟨rfl, _, congrArg (fun read => some (Event.port <$> read)) hread⟩

theorem read?_of_ge (h : 10 ≤ id) (length : UInt32) (payload : Bytes) :
    (Command.ofByte? id).bind flag? = none ∧ read? id length payload = none := by
  cases hknown : Command.ofByte? id with
  | none => exact ⟨rfl, by rw [read?, hknown]; rfl⟩
  | some command =>
    obtain rfl := Command.ofByte?_eq_some_iff.mp hknown
    cases command with
    | suggest | haveAll | haveNone | reject | allowedFast | extended => exact ⟨rfl, rfl⟩
    | _ => exact absurd h (by decide)

end Inbound

end PeerLink
