import Mathlib.Data.List.Induction
import PeerLink.Proofs.Module.MetadataExchange
import PeerLink.Proofs.Module.Output

/-!
# Metadata is verified before it is reported

A call does one of few things to an exchange, `MetadataExchange.Effect`: it starts a
download, stores a piece, or ends the download, with metadata or without.  From this it
follows what every run of calls preserves, `IsSound`, that metadata is reported at most
once, and where it comes from: `Fetched` names the handshake that started the download
and the pieces that the metadata consists of.
-/

namespace PeerLink

/-- The metadata that an event reports. -/
def Event.metadata? : Event → Option Bytes
  | .metadataReceived metadata => some metadata
  | _ => none

/-- The metadata that some events report, in order. -/
def Event.reported (events : List Event) : List Bytes := events.filterMap Event.metadata?

@[simp]
theorem Event.reported_append (first second : List Event) :
    reported (first ++ second) = reported first ++ reported second :=
  List.filterMap_append

namespace Metadata

/-- The sizes of all pieces add up to the size of the metadata. -/
theorem sum_pieceSize (size : Nat) :
    ((List.range (pieceCount size)).map fun index => pieceSize index size).sum = size := by
  have hlength := congrArg List.length (flatMap_piece (List.replicate size 0))
  rw [List.length_flatMap, List.length_replicate] at hlength
  simpa only [length_piece, List.length_replicate] using hlength

/-- Of the pieces that were accepted, each with its index, the last for an index. -/
def latest? (accepted : List (Nat × Bytes)) (index : Nat) : Option Bytes :=
  accepted.reverse.lookup index

theorem latest?_concat (accepted : List (Nat × Bytes)) (piece : Nat × Bytes) (index : Nat) :
    latest? (accepted ++ [piece]) index =
      if index = piece.1 then some piece.2 else latest? accepted index := by
  rw [latest?, List.reverse_append, List.reverse_singleton, List.singleton_append,
    List.lookup_cons]
  by_cases hindex : index = piece.1
  · rw [if_pos hindex, beq_iff_eq.mpr hindex]
  · rw [if_neg hindex, beq_eq_false_iff_ne.mpr hindex]
    rfl

end Metadata

/-! ## Downloads -/

namespace MetadataDownload

instance (download : MetadataDownload) (index : Nat) (data : Bytes) :
    Decidable (download.Fits index data) :=
  decidable_of_iff (index < download.pieces.length ∧
    data.length = Metadata.pieceSize index download.size) ⟨fun h => ⟨h.1, h.2⟩, fun h => ⟨h.1, h.2⟩⟩

/-- Metadata of a size that is fetched, in pieces that have the sizes of their indices. -/
structure IsSized (download : MetadataDownload) : Prop where
  size_pos : 1 ≤ download.size
  size_le : download.size ≤ MetadataExchange.maxSize
  length_eq : download.pieces.length = Metadata.pieceCount download.size
  piece_length : ∀ index data, download.pieces[index]? = some (some data) →
    data.length = Metadata.pieceSize index download.size

variable {download : MetadataDownload} {size index : Nat} {data : Bytes}
  {accepted : List (Nat × Bytes)}

theorem isSized_start (hpos : 1 ≤ size) (hle : size ≤ MetadataExchange.maxSize) :
    (start size).IsSized := by
  refine ⟨hpos, hle, List.length_replicate, ?_⟩
  intro index data hdata
  have hnone : some data = none := List.eq_of_mem_replicate (List.mem_of_getElem? hdata)
  cases hnone

theorem IsSized.store (h : download.IsSized) (hfits : download.Fits index data) :
    (download.store index data).IsSized := by
  refine ⟨h.size_pos, h.size_le, List.length_set.trans h.length_eq, ?_⟩
  intro place other hother
  change (download.pieces.set index (some data))[place]? = _ at hother
  by_cases hplace : index = place
  · rw [← hplace, List.getElem?_set_self hfits.lt_length] at hother
    obtain rfl := Option.some.inj (Option.some.inj hother)
    rw [← hplace]
    exact hfits.length_eq
  · rw [List.getElem?_set_ne hplace] at hother
    exact h.piece_length place other hother

/-- Pieces of the right sizes make up metadata of the right size. -/
theorem IsSized.length_assemble (h : download.IsSized) (hcomplete : download.isComplete = true) :
    download.assemble.length = download.size := by
  have hlengths : download.pieces.map (fun piece? => (piece?.getD []).length) =
      (List.range (Metadata.pieceCount download.size)).map fun index =>
        Metadata.pieceSize index download.size := by
    apply List.ext_getElem
    · rw [List.length_map, List.length_map, List.length_range, h.length_eq]
    · intro place hplace _
      rw [List.length_map] at hplace
      have hsome := List.all_eq_true.mp hcomplete _ (List.getElem_mem hplace)
      obtain ⟨data, hdata⟩ := Option.isSome_iff_exists.mp hsome
      rw [List.getElem_map, List.getElem_map, List.getElem_range, hdata]
      exact h.piece_length place data (hdata ▸ List.getElem?_eq_getElem hplace)
  rw [assemble, List.length_flatMap, hlengths, Metadata.sum_pieceSize]

/-- The download of so much metadata after some pieces were accepted. -/
def ofAccepted (size : Nat) (accepted : List (Nat × Bytes)) : MetadataDownload where
  size := size
  pieces := (List.range (Metadata.pieceCount size)).map (Metadata.latest? accepted)

theorem ofAccepted_nil : ofAccepted size [] = start size := by
  have hnone : Metadata.latest? [] = fun _ => none := rfl
  rw [ofAccepted, start, hnone, List.map_const', List.length_range]

theorem store_ofAccepted :
    (ofAccepted size accepted).store index data =
      ofAccepted size (accepted ++ [(index, data)]) := by
  have hpieces : (ofAccepted size accepted).pieces.set index (some data) =
      (ofAccepted size (accepted ++ [(index, data)])).pieces := by
    apply List.ext_getElem
    · simp [ofAccepted]
    · intro place hplace _
      simp only [ofAccepted, List.getElem_set, List.getElem_map, List.getElem_range,
        Metadata.latest?_concat, eq_comm (a := index)]
  rw [store, hpieces]
  rfl

theorem assemble_ofAccepted :
    (ofAccepted size accepted).assemble = (List.range (Metadata.pieceCount size)).flatMap
      fun index => (Metadata.latest? accepted index).getD [] :=
  List.flatMap_map ..

theorem isComplete_ofAccepted :
    (ofAccepted size accepted).isComplete = true ↔
      ∀ index < Metadata.pieceCount size, (Metadata.latest? accepted index).isSome = true := by
  simp [isComplete, ofAccepted]

end MetadataDownload

namespace MetadataExchange

/-! ## What a call does -/

/-- The piece that a call brings, if it is a data message. -/
def Call.piece? : Call → Option (Nat × Bytes)
  | .message _ payload =>
    match MetadataMessage.decode payload with
    | .ok ⟨.data, piece, _, data⟩ => some (piece.toNat, data.getD [])
    | _ => none
  | _ => none

/-- The piece that a call brings, if it fits the download under way. -/
def accepts (exchange : MetadataExchange) (c : Call) : Option (Nat × Bytes) :=
  exchange.download.bind fun download =>
    c.piece?.filter fun piece => download.Fits piece.1 piece.2

/-- What a call can do to an exchange, and the metadata that it reports. -/
inductive Effect (exchange : MetadataExchange) : Call → MetadataExchange → List Bytes → Prop where
  | idle {c : Call} (haccepts : exchange.accepts c = none) : Effect exchange c exchange []
  | starts {context : SubContext} {handshake : ExtensionHandshake} {size : Nat}
      (hidle : exchange = fetching) (hsize : usableSize? handshake.metadataSize = some size) :
    Effect exchange (.handshake context handshake) ⟨none, some (.start size)⟩ []
  | stores {c : Call} {download : MetadataDownload} {index : Nat} {data : Bytes}
      (hdownload : exchange.download = some download)
      (haccepts : exchange.accepts c = some (index, data)) :
    Effect exchange c { exchange with download := some (download.store index data) } []
  | discards {c : Call} : Effect exchange c { exchange with download := none } []
  | finishes {context : SubContext} {payload : Bytes} {download : MetadataDownload} {index : Nat}
      {data : Bytes} (hdownload : exchange.download = some download)
      (haccepts : exchange.accepts (.message context payload) = some (index, data))
      (hcomplete : (download.store index data).isComplete = true)
      (hdigest : context.state.infoHash =
        some (Sha1.digest (download.store index data).assemble)) :
    Effect exchange (.message context payload) ⟨some (download.store index data).assemble, none⟩
      [(download.store index data).assemble]

variable {exchange origin next : MetadataExchange} {download : MetadataDownload} {c : Call}
  {context : SubContext} {handshake : ExtensionHandshake} {payload metadata data : Bytes}
  {index size : Nat} {calls : List Call} {accepted : List (Nat × Bytes)}

theorem accepts_eq_some_iff (h : exchange.download = some download) :
    exchange.accepts c = some (index, data) ↔
      c.piece? = some (index, data) ∧ download.Fits index data := by
  rw [accepts, h, Option.bind_some, Option.filter_eq_some_iff, decide_eq_true_iff]

/-- What a data message brings is received, and nothing else happens. -/
theorem exists_receive_of_piece? (h : c.piece? = some (index, data)) :
    ∃ context payload piece, c = .message context payload ∧ piece.toNat = index ∧
      ∀ exchange : MetadataExchange, exchange.call c = exchange.receive context piece data := by
  cases c with
  | handshake context handshake => cases h
  | teardown => cases h
  | message context payload =>
    rw [Call.piece?] at h
    split at h
    · next piece totalSize content hdecode =>
      obtain ⟨rfl, rfl⟩ := Prod.mk.inj (Option.some.inj h)
      refine ⟨context, payload, piece, rfl, rfl, ?_⟩
      intro exchange
      rw [call, onMessage, hdecode]
    · cases h

/-- A data message that does not fit the download under way is refused, and nothing
changes. -/
theorem call_of_not_fits (hdownload : exchange.download = some download)
    (hpiece : c.piece? = some (index, data)) (hfits : ¬ download.Fits index data) :
    ∃ fault, exchange.call c = .fail exchange (.extension fault) .none := by
  obtain ⟨context, payload, piece, -, rfl, hcall⟩ := exists_receive_of_piece? hpiece
  rw [hcall]
  exact receive_of_not_fits hdownload hfits

/-- Without a download, a data message is ignored. -/
theorem call_of_download_eq_none (hdownload : exchange.download = none)
    (hpiece : c.piece? = some (index, data)) : exchange.call c = .ok exchange () .none := by
  obtain ⟨context, payload, piece, -, -, hcall⟩ := exists_receive_of_piece? hpiece
  rw [hcall]
  exact receive_of_none hdownload

theorem usableSize?_eq_some_iff {announced : Option Int64} :
    usableSize? announced = some size ↔
      announced = some (Int64.ofNat size) ∧ 1 ≤ size ∧ size ≤ maxSize := by
  constructor
  · intro h
    obtain ⟨n, rfl, hn⟩ := Option.bind_eq_some_iff.mp h
    by_cases husable : 0 < n.toInt ∧ n.toInt ≤ maxSize
    · rw [if_pos husable] at hn
      obtain rfl := Option.some.inj hn
      have hnat : (n.toInt.toNat : Int) = n.toInt := Int.toNat_of_nonneg (Int.le_of_lt husable.1)
      refine ⟨?_, by omega, by omega⟩
      rw [← Int64.ofInt_eq_ofNat, hnat, Int64.ofInt_toInt]
    · rw [if_neg husable] at hn
      cases hn
  · rintro ⟨rfl, hpos, hle⟩
    exact usableSize?_ofNat hpos hle

theorem next_send {σ : Type} (context : SubContext) (next : σ) (payload : Bytes) :
    (context.send next payload).next = next := by
  rw [SubContext.send]
  split
  · rfl
  · rfl

theorem onHandshake_effect (exchange : MetadataExchange) (context : SubContext)
    (handshake : ExtensionHandshake) :
    Effect exchange (.handshake context handshake) (exchange.onHandshake context handshake).next
      (Event.reported (exchange.onHandshake context handshake).output.events) := by
  have hidle : Effect exchange (.handshake context handshake) exchange [] := by
    apply Effect.idle
    rw [accepts]
    cases exchange.download with
    | none => rfl
    | some download => rfl
  rw [onHandshake]
  by_cases hbusy : (exchange.metadata.isSome || exchange.download.isSome) = true
  · rw [if_pos hbusy]
    exact hidle
  · rw [if_neg hbusy]
    split
    · exact hidle
    · next size hsize =>
      dsimp only
      split
      · exact hidle
      · obtain ⟨metadata, download⟩ := exchange
        cases metadata with
        | some metadata => exact absurd rfl hbusy
        | none =>
          cases download with
          | some download => exact absurd rfl hbusy
          | none => exact .starts rfl hsize

theorem receive_effect {index : UInt32}
    (hpiece : Call.piece? (.message context payload) = some (index.toNat, data)) :
    Effect exchange (.message context payload) (exchange.receive context index data).next
      (Event.reported (exchange.receive context index data).output.events) := by
  cases hdownload : exchange.download with
  | none =>
    rw [receive_of_none hdownload]
    apply Effect.idle
    rw [accepts, hdownload]
    rfl
  | some download =>
    by_cases hfits : download.Fits index.toNat data
    · have haccepts := (accepts_eq_some_iff hdownload).mpr ⟨hpiece, hfits⟩
      rw [receive_of_fits hdownload hfits]
      split
      · next hcomplete =>
        rw [finish]
        split
        · exact .stores hdownload haccepts
        · next infoHash hinfoHash =>
          split
          · next hdigest =>
            exact .finishes hdownload haccepts hcomplete (hdigest ▸ hinfoHash)
          · exact .discards
      · exact .stores hdownload haccepts
    · obtain ⟨fault, hfault⟩ :
          ∃ fault, exchange.receive context index data = .fail exchange (.extension fault) .none :=
        receive_of_not_fits hdownload hfits
      rw [hfault]
      apply Effect.idle
      rw [accepts, hdownload, Option.bind_some, hpiece, Option.filter_some, if_neg]
      simpa using hfits

theorem onMessage_effect (exchange : MetadataExchange) (context : SubContext) (payload : Bytes) :
    Effect exchange (.message context payload) (exchange.onMessage context payload).next
      (Event.reported (exchange.onMessage context payload).output.events) := by
  have hidle : Call.piece? (.message context payload) = none →
      Effect exchange (.message context payload) exchange [] := by
    intro hpiece
    apply Effect.idle
    rw [accepts, hpiece]
    exact Option.bind_fun_none exchange.download
  rw [onMessage]
  split
  · next hdecode => exact hidle (by rw [Call.piece?, hdecode])
  · next message hdecode =>
    obtain ⟨type, piece, totalSize, content⟩ := message
    cases type with
    | request =>
      have hunheard := SubContext.output_send Output.admitsMessages_isUnheard context exchange
        (exchange.answer piece).encode
      dsimp only
      rw [next_send, hunheard]
      exact hidle (by rw [Call.piece?, hdecode])
    | data =>
      apply receive_effect
      rw [Call.piece?, hdecode]
    | reject => exact hidle (by rw [Call.piece?, hdecode])

theorem call_effect (exchange : MetadataExchange) (c : Call) :
    Effect exchange c (exchange.call c).next (Event.reported (exchange.call c).output.events) := by
  cases c with
  | handshake context handshake => exact onHandshake_effect exchange context handshake
  | message context payload => exact onMessage_effect exchange context payload
  | teardown => exact .discards

/-! ## What all calls preserve -/

/-- Metadata that is known is not fetched, and what is fetched has the right sizes. -/
structure IsSound (exchange : MetadataExchange) : Prop where
  exclusive : exchange.metadata = none ∨ exchange.download = none
  sized : ∀ download, exchange.download = some download → download.IsSized

theorem isSound_fetching : fetching.IsSound :=
  ⟨.inl rfl, fun _ h => by cases h⟩

theorem isSound_serving (metadata : Bytes) : (serving metadata).IsSound :=
  ⟨.inr rfl, fun _ h => by cases h⟩

theorem IsSound.metadata_eq (h : exchange.IsSound) (hdownload : exchange.download = some download) :
    exchange.metadata = none :=
  h.exclusive.resolve_right (by simp [hdownload])

theorem Effect.isSound {reported : List Bytes} (h : Effect exchange c next reported)
    (hsound : exchange.IsSound) : next.IsSound := by
  cases h with
  | idle haccepts => exact hsound
  | starts hidle hsize =>
    obtain ⟨-, hpos, hle⟩ := usableSize?_eq_some_iff.mp hsize
    refine ⟨.inl rfl, ?_⟩
    intro download hdownload
    obtain rfl := Option.some.inj hdownload
    exact MetadataDownload.isSized_start hpos hle
  | stores hdownload haccepts =>
    obtain ⟨-, hfits⟩ := (accepts_eq_some_iff hdownload).mp haccepts
    refine ⟨.inl (hsound.metadata_eq hdownload), ?_⟩
    intro stored hstored
    obtain rfl := Option.some.inj hstored
    exact (hsound.sized _ hdownload).store hfits
  | discards => exact ⟨.inr rfl, fun _ h => by cases h⟩
  | finishes hdownload haccepts hcomplete hdigest => exact isSound_serving _

/-- The metadata is known exactly from when it is reported. -/
theorem Effect.toList_metadata {reported : List Bytes} (h : Effect exchange c next reported)
    (hsound : exchange.IsSound) : next.metadata.toList = exchange.metadata.toList ++ reported := by
  cases h with
  | idle haccepts => exact (List.append_nil _).symm
  | starts hidle hsize =>
    rw [hidle]
    rfl
  | stores hdownload haccepts => exact (List.append_nil _).symm
  | discards => exact (List.append_nil _).symm
  | finishes hdownload haccepts hcomplete hdigest =>
    rw [hsound.metadata_eq hdownload]
    rfl

theorem IsSound.after (h : exchange.IsSound) (calls : List Call) :
    (exchange.after calls).IsSound := by
  induction calls using List.reverseRecOn with
  | nil => exact h
  | append_singleton calls c ih =>
    rw [after_concat]
    exact (call_effect _ c).isSound ih

theorem IsSound.toList_metadata_after (h : exchange.IsSound) (calls : List Call) :
    (exchange.after calls).metadata.toList =
      exchange.metadata.toList ++ Event.reported (exchange.raised calls) := by
  induction calls using List.reverseRecOn with
  | nil => exact (List.append_nil _).symm
  | append_singleton calls c ih =>
    rw [after_concat, raised_concat, Event.reported_append, ← List.append_assoc, ← ih]
    exact (call_effect _ c).toList_metadata (h.after calls)

theorem IsSound.eq_serving (h : exchange.IsSound) (hmetadata : exchange.metadata = some metadata) :
    exchange = serving metadata := by
  have hdownload : exchange.download = none :=
    h.exclusive.resolve_left (by simp [hmetadata])
  rw [serving, ← hmetadata, ← hdownload]

/-- Metadata is reported at most once, by a side that did not have it.  After that the
side has it and fetches nothing. -/
theorem IsSound.reported_eq (h : exchange.IsSound)
    (hmem : metadata ∈ Event.reported (exchange.raised calls)) :
    exchange.metadata = none ∧ Event.reported (exchange.raised calls) = [metadata] ∧
      exchange.after calls = serving metadata := by
  have hlist := h.toList_metadata_after calls
  cases hold : exchange.metadata with
  | some old =>
    -- What is known already would have to be followed by what is reported.
    have hlength := congrArg List.length hlist
    have hpos := List.length_pos_of_mem hmem
    have hbound : (exchange.after calls).metadata.toList.length ≤ 1 := Option.length_toList_le
    rw [hlength, hold, List.length_append, Option.toList_some, List.length_singleton] at hbound
    omega
  | none =>
    rw [hold, Option.toList_none, List.nil_append] at hlist
    rw [← hlist, Option.mem_toList] at hmem
    refine ⟨rfl, ?_, (h.after calls).eq_serving hmem⟩
    rw [← hlist, hmem]
    rfl

theorem reported_serving (metadata : Bytes) (calls : List Call) :
    Event.reported ((serving metadata).raised calls) = [] := by
  apply List.eq_nil_iff_forall_not_mem.mpr
  intro other hother
  have hnone := ((isSound_serving metadata).reported_eq hother).1
  cases hnone

/-! ## Where metadata comes from -/

/-- In these calls a handshake starts a download, which is under way behind them.  The
pieces are those that were accepted for it. -/
inductive Downloads (origin : MetadataExchange) (handshake : ExtensionHandshake) :
    List Call → List (Nat × Bytes) → Prop where
  | start {before : List Call} {context : SubContext}
      (hbefore : (origin.after before).download = none)
      (hstarts : (origin.after (before ++ [.handshake context handshake])).download ≠ none) :
    Downloads origin handshake (before ++ [.handshake context handshake]) []
  | goOn {calls : List Call} {accepted : List (Nat × Bytes)} {c : Call}
      (hearlier : Downloads origin handshake calls accepted)
      (hstill : (origin.after (calls ++ [c])).download ≠ none) :
    Downloads origin handshake (calls ++ [c])
      (accepted ++ ((origin.after calls).accepts c).toList)

/-- What a handshake announced and what was accepted for it make up the metadata of a
connection. -/
structure Completes (handshake : ExtensionHandshake) (accepted : List (Nat × Bytes))
    (infoHash : Option Digest) (metadata : Bytes) : Prop where
  size_eq : handshake.metadataSize = some (Int64.ofNat metadata.length)
  size_pos : 1 ≤ metadata.length
  size_le : metadata.length ≤ 8388608
  infoHash_eq : infoHash = some (Sha1.digest metadata)
  piece_length : ∀ index < Metadata.pieceCount metadata.length, ∃ data,
    Metadata.latest? accepted index = some data ∧
      data.length = Metadata.pieceSize index metadata.length
  pieces_eq : metadata = (List.range (Metadata.pieceCount metadata.length)).flatMap fun index =>
    (Metadata.latest? accepted index).getD []

/-- In these calls a message completes a download of the metadata. -/
inductive Fetched (origin : MetadataExchange) (metadata : Bytes) : List Call → Prop where
  | intro {before later : List Call} {handshake : ExtensionHandshake}
      {accepted : List (Nat × Bytes)} {context : SubContext} {payload : Bytes}
      {piece : Nat × Bytes} (hdownloads : Downloads origin handshake before accepted)
      (haccepts : (origin.after before).accepts (.message context payload) = some piece)
      (hcompletes : Completes handshake (accepted ++ [piece]) context.state.infoHash metadata) :
    Fetched origin metadata (before ++ .message context payload :: later)

/-- If a download is under way behind a call, the call starts it or goes on with it. -/
theorem Effect.starts_or_goesOn {reported : List Bytes} (h : Effect exchange c next reported)
    (hnext : next.download ≠ none) :
    exchange.download = none ∧
        (∃ context handshake size, c = .handshake context handshake ∧
          usableSize? handshake.metadataSize = some size ∧
          next.download = some (.ofAccepted size [])) ∨
      exchange.download ≠ none ∧
        ∀ size accepted, exchange.download = some (.ofAccepted size accepted) →
          next.download = some (.ofAccepted size (accepted ++ (exchange.accepts c).toList)) := by
  cases h with
  | idle haccepts =>
    refine .inr ⟨hnext, ?_⟩
    intro size accepted hdownload
    rw [haccepts, Option.toList_none, List.append_nil]
    exact hdownload
  | starts hidle hsize =>
    refine .inl ⟨congrArg MetadataExchange.download hidle, _, _, _, rfl, hsize, ?_⟩
    rw [MetadataDownload.ofAccepted_nil]
  | stores hdownload haccepts =>
    refine .inr ⟨by simp [hdownload], ?_⟩
    intro size accepted hsame
    rw [hdownload] at hsame
    obtain rfl := Option.some.inj hsame
    rw [haccepts, MetadataDownload.store_ofAccepted]
    rfl
  | discards => exact absurd rfl hnext
  | finishes hdownload haccepts hcomplete hdigest => exact absurd rfl hnext

/-- Metadata is reported only by a message that completes a download. -/
theorem Effect.exists_of_mem {reported : List Bytes} (h : Effect exchange c next reported)
    (hmem : metadata ∈ reported) :
    ∃ context payload download index data, c = .message context payload ∧
      exchange.download = some download ∧ exchange.accepts c = some (index, data) ∧
      (download.store index data).isComplete = true ∧
      metadata = (download.store index data).assemble ∧
      context.state.infoHash = some (Sha1.digest metadata) := by
  cases h with
  | finishes hdownload haccepts hcomplete hdigest =>
    obtain rfl := List.mem_singleton.mp hmem
    exact ⟨_, _, _, _, _, rfl, hdownload, haccepts, hcomplete, rfl, hdigest⟩
  | _ => cases hmem

/-- A download holds what was accepted for it, and has the size that was announced. -/
theorem Downloads.after_eq (h : Downloads origin handshake calls accepted) :
    ∃ size, usableSize? handshake.metadataSize = some size ∧
      (origin.after calls).download = some (.ofAccepted size accepted) := by
  induction h with
  | start hbefore hstarts =>
    rw [after_concat] at hstarts ⊢
    rcases (call_effect _ _).starts_or_goesOn hstarts with
      ⟨-, context, handshake, size, hcall, hsize, hdownload⟩ | ⟨hbusy, -⟩
    · cases hcall
      exact ⟨size, hsize, hdownload⟩
    · exact absurd hbefore hbusy
  | goOn hearlier hstill ih =>
    obtain ⟨size, hsize, hdownload⟩ := ih
    rw [after_concat] at hstill ⊢
    rcases (call_effect _ _).starts_or_goesOn hstill with ⟨hidle, -⟩ | ⟨-, hgoes⟩
    · rw [hidle] at hdownload
      cases hdownload
    · exact ⟨size, hsize, hgoes size _ hdownload⟩

theorem exists_downloads (horigin : origin.download = none)
    (h : (origin.after calls).download ≠ none) :
    ∃ handshake accepted, Downloads origin handshake calls accepted := by
  induction calls using List.reverseRecOn with
  | nil => exact absurd horigin h
  | append_singleton calls c ih =>
    have hnext := h
    rw [after_concat] at hnext
    rcases (call_effect _ _).starts_or_goesOn hnext with
      ⟨hbefore, context, handshake, size, rfl, -⟩ | ⟨hbusy, -⟩
    · exact ⟨handshake, _, .start hbefore h⟩
    · obtain ⟨handshake, accepted, hearlier⟩ := ih hbusy
      exact ⟨handshake, _, hearlier.goOn h⟩

/-- A complete download of the metadata of a connection is what was announced and
accepted. -/
theorem completes_of_isComplete (hsize : usableSize? handshake.metadataSize = some size)
    (hsized : (MetadataDownload.ofAccepted size accepted).IsSized)
    (hcomplete : (MetadataDownload.ofAccepted size accepted).isComplete = true)
    (hmetadata : metadata = (MetadataDownload.ofAccepted size accepted).assemble)
    {infoHash : Option Digest} (hinfoHash : infoHash = some (Sha1.digest metadata)) :
    Completes handshake accepted infoHash metadata := by
  have hlength : metadata.length = size := by
    rw [hmetadata]
    exact hsized.length_assemble hcomplete
  obtain ⟨hannounced, hpos, hle⟩ := usableSize?_eq_some_iff.mp hsize
  subst hlength
  refine ⟨hannounced, hpos, hle, hinfoHash, ?_, ?_⟩
  · intro index hindex
    have hsome := MetadataDownload.isComplete_ofAccepted.mp hcomplete index hindex
    obtain ⟨data, hdata⟩ := Option.isSome_iff_exists.mp hsome
    refine ⟨data, hdata, hsized.piece_length index data ?_⟩
    rw [MetadataDownload.ofAccepted, List.getElem?_map, List.getElem?_range hindex, Option.map_some,
      hdata]
  · rw [← MetadataDownload.assemble_ofAccepted]
    exact hmetadata

theorem IsSound.fetched (h : origin.IsSound) (horigin : origin.download = none)
    (hmem : metadata ∈ Event.reported (origin.raised calls)) : Fetched origin metadata calls := by
  induction calls using List.reverseRecOn with
  | nil => cases hmem
  | append_singleton calls c ih =>
    rw [raised_concat, Event.reported_append, List.mem_append] at hmem
    rcases hmem with hearlier | hnow
    · obtain ⟨hdownloads, haccepts, hcompletes⟩ := ih hearlier
      rw [List.append_assoc]
      exact .intro hdownloads haccepts hcompletes
    · obtain ⟨context, payload, download, index, data, rfl, hdownload, haccepts, hcomplete,
        hmetadata, hinfoHash⟩ := (call_effect _ _).exists_of_mem hnow
      have hbusy : (origin.after calls).download ≠ none := by simp [hdownload]
      obtain ⟨handshake, accepted, hdownloads⟩ := exists_downloads horigin hbusy
      obtain ⟨size, hsize, hunderway⟩ := hdownloads.after_eq
      obtain ⟨-, hfits⟩ := (accepts_eq_some_iff hdownload).mp haccepts
      have hsized := ((h.after calls).sized download hdownload).store hfits
      rw [hunderway] at hdownload
      obtain rfl := Option.some.inj hdownload
      rw [MetadataDownload.store_ofAccepted] at hsized hcomplete hmetadata
      exact .intro hdownloads haccepts
        (completes_of_isComplete hsize hsized hcomplete hmetadata hinfoHash)

end MetadataExchange

end PeerLink
