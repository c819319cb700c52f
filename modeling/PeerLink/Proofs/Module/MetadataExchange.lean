import PeerLink.Module.MetadataExchange
import PeerLink.Proofs.Extension.MetadataMessage

/-!
# A metadata exchange between two sides

The calls that an exchange gets come one after another, and each goes on from the
state that the one before left.  The main statement is `transfers_metadata`: the side
that fetches requests every piece, the side that serves answers every request, and
whatever the order in which the answers arrive, the metadata is received with the last
piece that was missing.
-/

namespace PeerLink

/-! ## Calls one after another -/

namespace MetadataExchange

/-- A callback of an exchange, and what it is given. -/
inductive Call where
  | handshake (context : SubContext) (handshake : ExtensionHandshake)
  | message (context : SubContext) (payload : Bytes)
  | teardown

/-- What an exchange answers to a call. -/
def call (exchange : MetadataExchange) : Call → Reply MetadataExchange Unit
  | .handshake context handshake => exchange.onHandshake context handshake
  | .message context payload => exchange.onMessage context payload
  | .teardown => .ok (SubProtocol.onTeardown exchange).1 () .none

/-- The state of an exchange after some calls, whether they succeeded or not. -/
def after (exchange : MetadataExchange) (calls : List Call) : MetadataExchange :=
  calls.foldl (fun exchange c => (exchange.call c).next) exchange

/-- The events that an exchange raises in some calls. -/
def raised (exchange : MetadataExchange) : List Call → List Event
  | [] => []
  | c :: rest => (exchange.call c).output.events ++ (exchange.call c).next.raised rest

theorem after_nil (exchange : MetadataExchange) : exchange.after [] = exchange :=
  rfl

theorem after_cons (exchange : MetadataExchange) (c : Call) (rest : List Call) :
    exchange.after (c :: rest) = (exchange.call c).next.after rest :=
  rfl

theorem after_append (exchange : MetadataExchange) (first second : List Call) :
    exchange.after (first ++ second) = (exchange.after first).after second :=
  List.foldl_append

theorem after_concat (exchange : MetadataExchange) (calls : List Call) (c : Call) :
    exchange.after (calls ++ [c]) = ((exchange.after calls).call c).next :=
  after_append exchange calls [c]

theorem raised_append (exchange : MetadataExchange) (first second : List Call) :
    exchange.raised (first ++ second) =
      exchange.raised first ++ (exchange.after first).raised second := by
  induction first generalizing exchange with
  | nil => rfl
  | cons c rest ih =>
    rw [List.cons_append, raised, raised, ih, List.append_assoc]
    rfl

theorem raised_concat (exchange : MetadataExchange) (calls : List Call) (c : Call) :
    exchange.raised (calls ++ [c]) =
      exchange.raised calls ++ ((exchange.after calls).call c).output.events := by
  rw [raised_append, raised, raised, List.append_nil]

/-! ## Messages -/

theorem onMessage_request (exchange : MetadataExchange) (context : SubContext) (index : UInt32) :
    exchange.onMessage context (MetadataMessage.request index).encode =
      context.send exchange (exchange.answer index).encode := by
  rw [onMessage, MetadataMessage.decode_encode (MetadataMessage.isShaped_request index)]
  rfl

theorem onMessage_ofPiece (exchange : MetadataExchange) (context : SubContext)
    (index totalSize : UInt32) (data : Bytes) :
    exchange.onMessage context (MetadataMessage.ofPiece index totalSize data).encode =
      exchange.receive context index data := by
  rw [onMessage, MetadataMessage.decode_encode (MetadataMessage.isShaped_ofPiece _ _ _)]
  rfl

end MetadataExchange

/-! ## A piece for a download -/

namespace MetadataDownload

/-- Places a piece at its index. -/
def store (download : MetadataDownload) (index : Nat) (data : Bytes) : MetadataDownload :=
  { download with pieces := download.pieces.set index (some data) }

/-- There is such a piece, and it has this many bytes. -/
structure Fits (download : MetadataDownload) (index : Nat) (data : Bytes) : Prop where
  lt_length : index < download.pieces.length
  length_eq : data.length = Metadata.pieceSize index download.size

end MetadataDownload

namespace MetadataExchange

section Receiving

variable {exchange : MetadataExchange} {download : MetadataDownload} {context : SubContext}
  {index : UInt32} {data : Bytes}

theorem receive_of_none (h : exchange.download = none) :
    exchange.receive context index data = .ok exchange () .none := by
  rw [receive, h]

/-- A piece that does not fit is refused, and nothing changes. -/
theorem receive_of_not_fits (h : exchange.download = some download)
    (hfits : ¬ download.Fits index.toNat data) :
    ∃ fault, exchange.receive context index data = .fail exchange (.extension fault) .none := by
  rw [receive, h]
  dsimp only
  by_cases hindex : download.pieces.length ≤ index.toNat
  · rw [if_pos hindex]
    exact ⟨_, rfl⟩
  · rw [if_neg hindex, if_pos fun hlength => hfits ⟨Nat.lt_of_not_le hindex, hlength⟩]
    exact ⟨_, rfl⟩

theorem receive_of_fits (h : exchange.download = some download)
    (hfits : download.Fits index.toNat data) :
    exchange.receive context index data =
      if (download.store index.toNat data).isComplete then
        exchange.finish context (download.store index.toNat data)
      else .ok { exchange with download := some (download.store index.toNat data) } () .none := by
  rw [receive, h]
  dsimp only
  rw [if_neg (Nat.not_le.mpr hfits.lt_length), if_neg (not_not.mpr hfits.length_eq)]
  rfl

end Receiving

end MetadataExchange

/-! ## The pieces that arrived -/

/-- Whether all pieces of some metadata are among those that arrived. -/
def Metadata.IsCovered (metadata : Bytes) (arrived : List UInt32) : Prop :=
  ∀ index < Metadata.pieceCount metadata.length, UInt32.ofNat index ∈ arrived

instance (metadata : Bytes) (arrived : List UInt32) :
    Decidable (Metadata.IsCovered metadata arrived) :=
  inferInstanceAs (Decidable (∀ index < _, UInt32.ofNat index ∈ arrived))

/-- The pieces of some metadata that did not arrive, in ascending order. -/
def Metadata.uncovered (metadata : Bytes) (arrived : List UInt32) : List UInt32 :=
  ((List.range (Metadata.pieceCount metadata.length)).map UInt32.ofNat).filter (· ∉ arrived)

theorem Metadata.IsCovered.append {metadata : Bytes} {arrived : List UInt32}
    (h : Metadata.IsCovered metadata arrived) (later : List UInt32) :
    Metadata.IsCovered metadata (arrived ++ later) :=
  fun index hindex => List.mem_append_left later (h index hindex)

theorem Metadata.not_isCovered_nil {metadata : Bytes} (hpos : 1 ≤ metadata.length) :
    ¬ Metadata.IsCovered metadata [] :=
  fun h => absurd (h 0 (Metadata.pieceCount_pos hpos)) List.not_mem_nil

theorem Metadata.uncovered_eq_nil_iff {metadata : Bytes} {arrived : List UInt32} :
    Metadata.uncovered metadata arrived = [] ↔ Metadata.IsCovered metadata arrived := by
  simp [uncovered, IsCovered, List.filter_eq_nil_iff]

namespace MetadataDownload

/-- The download of some metadata after some of its pieces arrived. -/
def ofArrived (metadata : Bytes) (arrived : List UInt32) : MetadataDownload where
  size := metadata.length
  pieces := (List.range (Metadata.pieceCount metadata.length)).map fun index =>
    if UInt32.ofNat index ∈ arrived then some (Metadata.piece metadata index) else none

variable {metadata : Bytes} {arrived : List UInt32}

theorem length_pieces_ofArrived :
    (ofArrived metadata arrived).pieces.length = Metadata.pieceCount metadata.length := by
  simp [ofArrived]

theorem getElem_pieces_ofArrived {place : Nat}
    (h : place < (ofArrived metadata arrived).pieces.length) :
    (ofArrived metadata arrived).pieces[place] =
      if UInt32.ofNat place ∈ arrived then some (Metadata.piece metadata place) else none := by
  simp only [ofArrived, List.getElem_map, List.getElem_range]

theorem ofArrived_nil : ofArrived metadata [] = start metadata.length := by
  simp [ofArrived, start]

theorem isComplete_ofArrived :
    (ofArrived metadata arrived).isComplete = true ↔ Metadata.IsCovered metadata arrived := by
  simp [isComplete, ofArrived, Metadata.IsCovered]

theorem missing_ofArrived :
    (ofArrived metadata arrived).missing = Metadata.uncovered metadata arrived := by
  have hindices : (List.range (Metadata.pieceCount metadata.length)).zipIdx =
      (List.range (Metadata.pieceCount metadata.length)).map fun index => (index, index) := by
    apply List.ext_getElem
    · simp
    · simp
  rw [missing, ofArrived, Metadata.uncovered, List.zipIdx_map, hindices, List.map_map,
    List.filterMap_map, List.filter_map, ← List.filterMap_eq_map, List.filterMap_filter]
  congr 1
  funext index
  by_cases hmem : UInt32.ofNat index ∈ arrived
  · simp [hmem]
  · simp [hmem]

/-- The pieces that arrived are the metadata, once all of them did. -/
theorem assemble_ofArrived (h : Metadata.IsCovered metadata arrived) :
    (ofArrived metadata arrived).assemble = metadata := by
  have hpieces : (ofArrived metadata arrived).assemble =
      (List.range (Metadata.pieceCount metadata.length)).flatMap (Metadata.piece metadata) := by
    rw [assemble, ofArrived, List.flatMap_map]
    apply List.flatMap_congr
    intro index hindex
    rw [if_pos (h index (List.mem_range.mp hindex)), Option.getD_some]
  rw [hpieces, Metadata.flatMap_piece]

/-- A piece is placed where it belongs, also if it was there already. -/
theorem store_ofArrived (hcount : Metadata.pieceCount metadata.length ≤ 2 ^ 32) (index : UInt32) :
    (ofArrived metadata arrived).store index.toNat (Metadata.piece metadata index.toNat) =
      ofArrived metadata (arrived ++ [index]) := by
  have hpieces : (ofArrived metadata arrived).pieces.set index.toNat
      (some (Metadata.piece metadata index.toNat)) =
        (ofArrived metadata (arrived ++ [index])).pieces := by
    apply List.ext_getElem
    · simp [ofArrived]
    · intro place hplace _
      have hlt : place < 2 ^ 32 := by
        rw [List.length_set, length_pieces_ofArrived] at hplace
        omega
      have heq : UInt32.ofNat place = index ↔ index.toNat = place := by
        rw [← UInt32.toNat_inj, UInt32.toNat_ofNat', Nat.mod_eq_of_lt hlt]
        exact eq_comm
      rw [List.getElem_set, getElem_pieces_ofArrived, getElem_pieces_ofArrived]
      by_cases hsame : index.toNat = place
      · rw [if_pos hsame, if_pos, hsame]
        exact List.mem_append_right arrived (List.mem_singleton.mpr (heq.mpr hsame))
      · rw [if_neg hsame]
        simp only [List.mem_append, List.mem_singleton, heq, hsame, or_false]
  rw [store, hpieces, ofArrived, ofArrived]

theorem fits_ofArrived {index : UInt32}
    (hindex : index.toNat < Metadata.pieceCount metadata.length) :
    (ofArrived metadata arrived).Fits index.toNat (Metadata.piece metadata index.toNat) :=
  ⟨by rwa [length_pieces_ofArrived], Metadata.length_piece metadata index.toNat⟩

end MetadataDownload

namespace MetadataExchange

/-! ## The side that fetches -/

/-- A peer with an id learns all pieces that are wanted, if it announced a usable size. -/
theorem onHandshake_fetching {context : SubContext} {id : UInt8}
    (hid : context.remoteId = some id) {handshake : ExtensionHandshake} {size : Nat}
    (hsize : usableSize? handshake.metadataSize = some size) :
    fetching.onHandshake context handshake =
      .ok ⟨none, some (.start size)⟩ ()
        (.ofFrames ((List.range (Metadata.pieceCount size)).map fun index =>
          (Message.extended id
            (MetadataMessage.request (UInt32.ofNat index)).encode).toFrame)) := by
  have hframe : context.frame = fun payload => pure (Message.extended id payload).toFrame := by
    funext payload
    rw [SubContext.frame, hid]
    rfl
  have hframes : ((List.range (Metadata.pieceCount size)).map fun index =>
      (MetadataMessage.request (UInt32.ofNat index)).encode).mapM context.frame =
        .ok ((List.range (Metadata.pieceCount size)).map fun index =>
          (Message.extended id (MetadataMessage.request (UInt32.ofNat index)).encode).toFrame) := by
    rw [hframe, List.mapM_pure, List.map_map]
    exact congrArg Except.ok (List.map_congr_left fun _ _ => Function.comp_apply)
  rw [onHandshake, if_neg (by decide), hsize]
  simp only [hframes, fetching]

theorem usableSize?_ofNat {size : Nat} (hpos : 1 ≤ size) (hmax : size ≤ 8388608) :
    usableSize? (some (Int64.ofNat size)) = some size := by
  have hnat : (Int64.ofNat size).toInt = size := Int64.toInt_ofNat_of_lt (by omega)
  rw [usableSize?, Option.bind_some, hnat, if_pos ⟨by omega, by rw [maxSize]; omega⟩,
    Int.toNat_natCast]

/-- A side that fetches some metadata, after some of its pieces arrived. -/
def fetched (metadata : Bytes) (arrived : List UInt32) : MetadataExchange :=
  if Metadata.IsCovered metadata arrived then serving metadata
  else ⟨none, some (.ofArrived metadata arrived)⟩

/-- A piece of some metadata that reaches a connection with its info hash. -/
structure Arrives (metadata : Bytes) (arrival : SubContext × UInt32) : Prop where
  infoHash_eq : arrival.1.state.infoHash = some (Sha1.digest metadata)
  index_lt : arrival.2.toNat < Metadata.pieceCount metadata.length

/-- The call in which the answer to a request arrives. -/
def answered (metadata : Bytes) (arrival : SubContext × UInt32) : Call :=
  .message arrival.1 ((serving metadata).answer arrival.2).encode

section Arriving

variable {metadata : Bytes} {arrived : List UInt32} {arrival : SubContext × UInt32}

theorem fetched_nil (hpos : 1 ≤ metadata.length) :
    fetched metadata [] = ⟨none, some (.start metadata.length)⟩ := by
  rw [fetched, if_neg (Metadata.not_isCovered_nil hpos), MetadataDownload.ofArrived_nil]

theorem missing_fetched :
    (fetched metadata arrived).missing = Metadata.uncovered metadata arrived := by
  by_cases h : Metadata.IsCovered metadata arrived
  · rw [fetched, if_pos h, Metadata.uncovered_eq_nil_iff.mpr h]
    rfl
  · rw [fetched, if_neg h]
    exact MetadataDownload.missing_ofArrived

/-- The event that one more piece raises, if it is the last that was missing. -/
def received (metadata : Bytes) (arrived later : List UInt32) : List Event :=
  if ¬ Metadata.IsCovered metadata arrived ∧ Metadata.IsCovered metadata (arrived ++ later) then
    [.metadataReceived metadata]
  else []

/-- The metadata is received once: with the pieces that come first, or with those that
come after them. -/
theorem received_append (first second : List UInt32) :
    received metadata arrived (first ++ second) =
      received metadata arrived first ++ received metadata (arrived ++ first) second := by
  by_cases hfirst : Metadata.IsCovered metadata (arrived ++ first)
  · have hall : Metadata.IsCovered metadata (arrived ++ (first ++ second)) := by
      rw [← List.append_assoc]
      exact hfirst.append second
    have hnothing : received metadata (arrived ++ first) second = [] :=
      if_neg fun hnew => hnew.1 hfirst
    rw [hnothing, List.append_nil]
    exact if_congr (and_congr_right fun _ => ⟨fun _ => hfirst, fun _ => hall⟩) rfl rfl
  · have hopen : ¬ Metadata.IsCovered metadata arrived := fun h => hfirst (h.append first)
    have hnothing : received metadata arrived first = [] := if_neg fun hnew => hfirst hnew.2
    rw [hnothing, List.nil_append, received, received, List.append_assoc]
    exact if_congr (and_congr_left fun _ => ⟨fun _ => hfirst, fun _ => hopen⟩) rfl rfl

/-- One more piece is stored, and the last one that was missing completes the metadata.
After that the side has it and ignores what else arrives. -/
theorem receive_fetched (hmax : metadata.length ≤ 8388608) (h : Arrives metadata arrival) :
    (fetched metadata arrived).receive arrival.1 arrival.2
        (Metadata.piece metadata arrival.2.toNat) =
      .ok (fetched metadata (arrived ++ [arrival.2])) ()
        ⟨[], received metadata arrived [arrival.2], []⟩ := by
  by_cases hcovered : Metadata.IsCovered metadata arrived
  · rw [received, if_neg fun hnew => hnew.1 hcovered, fetched, fetched, if_pos hcovered,
      if_pos (hcovered.append _)]
    rfl
  · have hcount : Metadata.pieceCount metadata.length ≤ 2 ^ 32 :=
      (Metadata.pieceCount_le hmax).trans (by decide)
    have hdownload : (fetched metadata arrived).download = some (.ofArrived metadata arrived) := by
      rw [fetched, if_neg hcovered]
    rw [receive_of_fits hdownload (MetadataDownload.fits_ofArrived h.index_lt),
      MetadataDownload.store_ofArrived hcount]
    by_cases hcomplete : Metadata.IsCovered metadata (arrived ++ [arrival.2])
    · rw [if_pos (MetadataDownload.isComplete_ofArrived.mpr hcomplete), finish,
        MetadataDownload.assemble_ofArrived hcomplete]
      simp only [h.infoHash_eq, if_true]
      rw [received, if_pos ⟨hcovered, hcomplete⟩, fetched, if_pos hcomplete]
      rfl
    · rw [if_neg (mt MetadataDownload.isComplete_ofArrived.mp hcomplete), received,
        if_neg fun hnew => hcomplete hnew.2, fetched, fetched, if_neg hcovered,
        if_neg hcomplete]
      rfl

theorem call_fetched (hmax : metadata.length ≤ 8388608) (h : Arrives metadata arrival) :
    (fetched metadata arrived).call (answered metadata arrival) =
      .ok (fetched metadata (arrived ++ [arrival.2])) ()
        ⟨[], received metadata arrived [arrival.2], []⟩ := by
  have hanswer : (serving metadata).answer arrival.2 =
      .ofPiece arrival.2 (UInt32.ofNat metadata.length)
        (Metadata.piece metadata arrival.2.toNat) := by
    rw [answer, serving]
    exact if_pos h.index_lt
  rw [answered, hanswer, call, onMessage_ofPiece, receive_fetched hmax h]

theorem after_fetched (hmax : metadata.length ≤ 8388608) {arrivals : List (SubContext × UInt32)}
    (h : ∀ arrival ∈ arrivals, Arrives metadata arrival) :
    (fetched metadata arrived).after (arrivals.map (answered metadata)) =
      fetched metadata (arrived ++ arrivals.map Prod.snd) := by
  induction arrivals generalizing arrived with
  | nil =>
    rw [List.map_nil, List.map_nil, List.append_nil, after_nil]
  | cons arrival rest ih =>
    rw [List.forall_mem_cons] at h
    have hrest := @ih (arrived ++ [arrival.2]) h.2
    rw [List.append_assoc] at hrest
    rw [List.map_cons, after_cons, call_fetched hmax h.1]
    exact hrest

theorem raised_fetched (hmax : metadata.length ≤ 8388608)
    {arrivals : List (SubContext × UInt32)} (h : ∀ arrival ∈ arrivals, Arrives metadata arrival) :
    (fetched metadata arrived).raised (arrivals.map (answered metadata)) =
      received metadata arrived (arrivals.map Prod.snd) := by
  induction arrivals generalizing arrived with
  | nil =>
    rw [List.map_nil, List.map_nil, received, List.append_nil, if_neg fun hnew => hnew.1 hnew.2]
    rfl
  | cons arrival rest ih =>
    rw [List.forall_mem_cons] at h
    rw [List.map_cons, raised, call_fetched hmax h.1]
    dsimp only [Reply.ok]
    rw [ih h.2]
    exact (received_append [arrival.2] _).symm

end Arriving

/-! ## The whole transfer -/

/-- A side that has metadata answers a request for one of its pieces with the piece, and
any other request with a refusal. -/
theorem onMessage_request_serving (metadata : Bytes) {context : SubContext} {id : UInt8}
    (hid : context.remoteId = some id) (index : UInt32) :
    (serving metadata).onMessage context (MetadataMessage.request index).encode =
      .ok (serving metadata) () (.ofFrames [(Message.extended id (
        if index.toNat < Metadata.pieceCount metadata.length then
          MetadataMessage.ofPiece index (UInt32.ofNat metadata.length)
            (Metadata.piece metadata index.toNat)
        else .reject index).encode).toFrame]) := by
  rw [onMessage_request, SubContext.send, SubContext.frame, hid]
  rfl

/-- Metadata of a size that is fetched passes from a side that has it to one that does
not.  The one side answers each request with the piece or a refusal.  The other requests
every piece once, in ascending order; of the answers it takes each, in whatever order and
however often they arrive, knows at all times what is missing, and receives the metadata
with the last piece that was missing and at no other time. -/
theorem transfers_metadata (metadata : Bytes) (hpos : 1 ≤ metadata.length)
    (hmax : metadata.length ≤ 8388608) :
    (∀ context id index, context.remoteId = some id →
      (serving metadata).onMessage context (MetadataMessage.request index).encode =
        .ok (serving metadata) () (.ofFrames [(Message.extended id (
          if index.toNat < Metadata.pieceCount metadata.length then
            MetadataMessage.ofPiece index (UInt32.ofNat metadata.length)
              (Metadata.piece metadata index.toNat)
          else .reject index).encode).toFrame])) ∧
    ∀ context id handshake, context.remoteId = some id →
      handshake.metadataSize = some (Int64.ofNat metadata.length) →
      let greeted := fetching.onHandshake context handshake
      greeted.result = .ok () ∧
      greeted.output = .ofFrames ((List.range (Metadata.pieceCount metadata.length)).map
        fun index =>
          (Message.extended id (MetadataMessage.request (UInt32.ofNat index)).encode).toFrame) ∧
      ∀ arrivals : List (SubContext × UInt32), (∀ arrival ∈ arrivals, Arrives metadata arrival) →
        let arrived := arrivals.map Prod.snd
        let exchange := greeted.next.after (arrivals.map (answered metadata))
        exchange.missing = Metadata.uncovered metadata arrived ∧
        greeted.next.raised (arrivals.map (answered metadata)) =
          (if Metadata.IsCovered metadata arrived then [.metadataReceived metadata] else []) ∧
        ∀ arrival, Arrives metadata arrival →
          let reply := exchange.call (answered metadata arrival)
          reply.result = .ok () ∧ reply.output.frames = [] ∧
          reply.output.events = received metadata arrived [arrival.2] := by
  constructor
  · intro context id index hid
    exact onMessage_request_serving metadata hid index
  · intro context id handshake hid hsize greeted
    have hgreeted := onHandshake_fetching hid (hsize ▸ usableSize?_ofNat hpos hmax)
    rw [← fetched_nil hpos] at hgreeted
    have hnext : greeted.next = fetched metadata [] := congrArg Reply.next hgreeted
    refine ⟨congrArg Reply.result hgreeted, congrArg Reply.output hgreeted, ?_⟩
    intro arrivals harrivals arrived exchange
    have hexchange : exchange = fetched metadata arrived := by
      change greeted.next.after (arrivals.map (answered metadata)) = _
      rw [hnext, after_fetched hmax harrivals]
      rfl
    refine ⟨?_, ?_, ?_⟩
    · rw [hexchange]
      exact missing_fetched
    · rw [hnext, raised_fetched hmax harrivals, received]
      simp [Metadata.not_isCovered_nil hpos, arrived]
    · intro arrival harrival
      dsimp only
      rw [hexchange, call_fetched hmax harrival]
      exact ⟨rfl, rfl, rfl⟩

/-- Metadata of two pieces, of which the second arrives first and twice, is received with
the first piece, and not again with what arrives afterwards. -/
theorem transfers_metadata_of_twoPieces :
    let metadata : Bytes := List.replicate 16385 7
    let context : SubContext :=
      ⟨{ ConnectionState.initial with infoHash := some (Sha1.digest metadata) }, name, some 3⟩
    let handshake : ExtensionHandshake :=
      { ExtensionHandshake.empty with metadataSize := some (Int64.ofNat metadata.length) }
    let greeted := fetching.onHandshake context handshake
    let arrive := fun index => answered metadata (context, index)
    greeted.result = .ok () ∧ greeted.output.frames.length = 2 ∧
      (greeted.next.after ([1, 1].map arrive)).missing = [0] ∧
      greeted.next.raised ([1, 1, 0, 1].map arrive) = [.metadataReceived metadata] ∧
      ((greeted.next.after ([1, 1, 0].map arrive)).call (arrive 1)).output.events = [] := by
  intro metadata
  have hlength : metadata.length = 16385 := List.length_replicate
  -- Only the length matters, and nothing should compute with the bytes.
  clear_value metadata
  intro context handshake greeted arrive
  have hcount : Metadata.pieceCount metadata.length = 2 := by rw [hlength]; rfl
  have harrives : ∀ indices : List UInt32, (∀ index ∈ indices, index.toNat < 2) →
      ∀ arrival ∈ indices.map (fun index => (context, index)), Arrives metadata arrival := by
    intro indices hindices arrival harrival
    obtain ⟨index, hindex, rfl⟩ := List.mem_map.mp harrival
    exact ⟨rfl, by rw [hcount]; exact hindices index hindex⟩
  obtain ⟨-, htransfer⟩ := transfers_metadata metadata (by omega) (by omega)
  obtain ⟨hresult, houtput, harrivals⟩ := htransfer context 3 handshake rfl rfl
  obtain ⟨hmissing, -⟩ := harrivals _ (harrives [1, 1] (by simp))
  obtain ⟨-, hraised, -⟩ := harrivals _ (harrives [1, 1, 0, 1] (by simp))
  obtain ⟨-, -, hlast⟩ := harrivals _ (harrives [1, 1, 0] (by simp))
  obtain ⟨-, -, hevents⟩ := hlast (context, 1) ⟨rfl, by rw [hcount]; exact Nat.one_lt_two⟩
  have hcovered : ∀ later : List UInt32, Metadata.IsCovered metadata ([1, 1, 0] ++ later) := by
    intro later
    refine Metadata.IsCovered.append ?_ later
    rw [Metadata.IsCovered, hcount]
    decide
  refine ⟨hresult, ?_, ?_, ?_, ?_⟩
  · rw [houtput, hcount]
    rfl
  · rw [Metadata.uncovered, hcount] at hmissing
    exact hmissing
  · exact hraised.trans (if_pos (hcovered [1]))
  · exact hevents.trans (if_neg fun hnew => hnew.1 (hcovered []))

end MetadataExchange
end PeerLink
