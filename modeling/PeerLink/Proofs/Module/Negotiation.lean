import PeerLink.Proofs.Extension.Handshake
import PeerLink.Proofs.Module.Refusal
import PeerLink.Proofs.Module.Registration

/-!
# Two registries that agree on ids

Each side numbers its own sub-protocols and addresses the other side by the other
side's numbers.  The main statement is `addresses_sender`: a side that took the
other's handshake sends exactly to the sub-protocols that the other registered, and
what it sends is delivered to the one that was meant.
-/

namespace PeerLink

/-- A message that fits its length field is sent as a frame that reads back. -/
theorem Message.isValid_extended {id : UInt8} {payload : Bytes} (h : payload.length + 2 < 2 ^ 32) :
    (Message.extended id payload).toFrame.IsValid := by
  change (UInt32.ofNat (payload.length + 1 + 1)).toNat = payload.length + 1 + 1
  rw [UInt32.toNat_ofNat']
  omega

namespace Registry

variable {Y Z : Type}

/-! ## Sending by the other side's ids -/

/-- A side without ids takes those of the other side. -/
theorem incomingId?_of_update {A : Registry Y} {B : Registry Z} (hA : A.IsNumbered)
    (hids : B.incoming = IdTable.update [] A.ids) (name : String) :
    B.incomingId? name = A.outgoingId? name := by
  have hnames : (A.ids.map Prod.fst).Nodup := by
    rw [keys_ids]
    exact hA.nodup
  rw [incomingId?, hids, IdTable.id?_update hnames, outgoingId?]
  cases hid : A.ids.lookup name with
  | none => rfl
  | some id => exact if_neg (hA.outgoingId?_ne_zero hid)

theorem send_of_some {registry : Registry Y} {name : String} {id : UInt8}
    (h : registry.incomingId? name = some id) (state : ConnectionState) (payload : Bytes) :
    registry.send state name payload =
      .ok registry () (.ofFrames [(Message.extended id payload).toFrame]) := by
  rw [send, context, SubContext.send, SubContext.frame, h]

theorem send_result_eq_ok_iff (registry : Registry Y) (state : ConnectionState) (name : String)
    (payload : Bytes) :
    (registry.send state name payload).result = .ok () ↔
      (registry.incomingId? name).isSome = true := by
  cases h : registry.incomingId? name with
  | some id =>
    rw [send_of_some h]
    simp [Reply.ok]
  | none =>
    rw [send, context, SubContext.send, SubContext.frame, h]
    simp [Reply.fail]

/-! ## Taking the other side's handshake -/

variable [SubProtocol Y] [SubProtocol Z]

/-- No sub-protocol refuses a handshake that gives it an id. -/
def AcceptsHandshakes (registry : Registry Y) (state : ConnectionState) : Prop :=
  ∀ sub ∈ registry.subs, ∀ id handshake,
    (SubProtocol.onHandshake sub.handler ⟨state, sub.name, some id⟩ handshake).result = .ok ()

theorem acceptsHandshakes_of_refusesUnheard (hY : SubProtocol.RefusesUnheard Y)
    (registry : Registry Y) (state : ConnectionState) : registry.AcceptsHandshakes state := by
  intro sub _ id handshake
  exact (AnySubProtocol.refusesUnheard hY).onHandshake sub.handler _ handshake
    (Option.some_ne_none id)

/-- A handshake that is read and refused by no sub-protocol is taken, and its ids enter
the table. -/
theorem onCommand_handshake {registry : Registry Y} {state : ConnectionState} {payload : Bytes}
    {handshake : ExtensionHandshake} (haccepts : registry.AcceptsHandshakes state)
    (hdecode : ExtensionHandshake.decode payload = .ok handshake) :
    (registry.onCommand state (0 :: payload)).result = .ok true ∧
      (registry.onCommand state (0 :: payload)).next.incoming =
        registry.incoming.update handshake.ids := by
  have hgreet : ∀ sub ∈ registry.subs, (greet state handshake sub).result = .ok () := by
    intro sub hsub
    exact greet_result_eq_ok fun id => haccepts sub hsub id handshake
  have heach := Reply.each_result_eq_ok hgreet
  rw [onCommand, if_pos rfl, receiveHandshake, hdecode]
  constructor
  · change (Reply.each (greet state handshake) registry.subs).result.map _ = _
    rw [heach]
    rfl
  · rfl

theorem localHandshake_ids (registry : Registry Y) : registry.localHandshake.ids = registry.ids :=
  rfl

/-- A side without ids that took the handshake of a side with registered sub-protocols
has the ids that this side gave.  It can send to what was registered there and to nothing
else, and a message that fits its frame is delivered to the sub-protocol of that name. -/
theorem addresses_sender {base A : Registry Y} {B : Registry Z}
    {handlers : List (AnySubProtocol Y)} (hbase : base.subs = [])
    (hA : base.registerAll handlers = .ok A) (hB : B.incoming = [])
    {state : ConnectionState} (haccepts : B.AcceptsHandshakes state)
    (hfits : A.localHandshake.Fits)
    (hdepth : ∀ entry ∈ A.localHandshake.extra, entry.2.height ≤ 63) :
    let taken := B.onCommand state (0 :: A.localHandshake.encode)
    taken.result = .ok true ∧ ∀ name,
      taken.next.incomingId? name = A.outgoingId? name ∧
      ∀ (now : ConnectionState) (payload : Bytes),
        ((taken.next.send now name payload).result = .ok () ↔
          name ∈ A.subs.map Registered.name) ∧
        ∀ index sub, A.subs[index]? = some sub → sub.name = name → payload.length + 2 < 2 ^ 32 →
          ∃ frame, (taken.next.send now name payload).output = .ofFrames [frame] ∧
            frame.id? = some Command.extended.toByte ∧
            (∀ rest, Frame.split? (frame.encode ++ rest) = some (frame, rest)) ∧
            ∀ there : ConnectionState, A.Delivers index sub
              (SubProtocol.onMessage sub.handler (A.context there name) payload)
              (A.onCommand there frame.payload) := by
  intro taken
  have hnumbered := isNumbered_of_registerAll hbase hA
  have hnames : (A.localHandshake.ids.map Prod.fst).Nodup := by
    rw [localHandshake_ids, keys_ids]
    exact hnumbered.nodup
  obtain ⟨heard, hdecode, hids⟩ :=
    ExtensionHandshake.exists_decode_encode hnames hfits hdepth
  obtain ⟨hresult, hincoming⟩ := onCommand_handshake haccepts hdecode
  rw [hB, hids, localHandshake_ids] at hincoming
  have hagree := incomingId?_of_update hnumbered hincoming
  refine ⟨hresult, ?_⟩
  intro name
  refine ⟨hagree name, ?_⟩
  intro now payload
  constructor
  · rw [send_result_eq_ok_iff, hagree, isSome_outgoingId?_iff]
  · intro index sub hsub hname hlength
    have hid : taken.next.incomingId? name = some (UInt8.ofNat (index + 1)) :=
      (hagree name).trans (hnumbered.outgoingId?_eq_some_iff.mpr ⟨index, sub, hsub, hname, rfl⟩)
    refine ⟨(Message.extended (UInt8.ofNat (index + 1)) payload).toFrame, ?_, rfl, ?_, ?_⟩
    · rw [send_of_some hid]
      rfl
    · exact Frame.split?_encode_append (Message.isValid_extended hlength)
    · intro there
      rw [← hname]
      exact hnumbered.onCommand_delivers hsub there payload

/-- A side that serves metadata in front of its peer exchange is addressed rightly by a
side that registered the two the other way round. -/
theorem addresses_sender_of_reordered :
    let A : Registry Empty :=
      ⟨[⟨"ut_metadata", .metadata (.serving [1, 2, 3])⟩, ⟨"ut_pex", .peerExchange .new⟩], [],
        some "peerwire/0.1.0", some 250, none⟩
    let B : Registry Empty :=
      ⟨[⟨"ut_pex", .peerExchange .new⟩, ⟨"ut_metadata", .metadata .fetching⟩], [], none, none, none⟩
    let taken := B.onCommand .initial (0 :: A.localHandshake.encode)
    taken.result = .ok true ∧ taken.next.incomingId? "ut_pex" = some 2 ∧
      B.outgoingId? "ut_pex" = some 1 ∧
      (taken.next.send .initial "ut_pex" [100, 101]).result = .ok () ∧
      ∃ frame, (taken.next.send .initial "ut_pex" [100, 101]).output = .ofFrames [frame] ∧
        A.Delivers 1 ⟨"ut_pex", .peerExchange .new⟩
          (SubProtocol.onMessage (AnySubProtocol.peerExchange (Y := Empty) .new)
            (A.context .initial "ut_pex") [100, 101])
          (A.onCommand .initial frame.payload) := by
  intro A B taken
  have hA : Registry.new.registerAll [.metadata (.serving [1, 2, 3]), .peerExchange .new] =
      .ok A := by rfl
  have hextra : A.localHandshake.extra = [] := by decide +kernel
  have hfits : A.localHandshake.Fits := by
    refine ⟨?_, ?_, ?_, ?_⟩
    · decide
    · decide
    · decide
    · rw [hextra]
      trivial
  have haccepts : B.AcceptsHandshakes .initial :=
    acceptsHandshakes_of_refusesUnheard SubProtocol.refusesUnheard_empty B .initial
  have hdepth : ∀ entry ∈ A.localHandshake.extra, entry.2.height ≤ 63 := by
    rw [hextra]
    simp
  obtain ⟨hresult, hnames⟩ := addresses_sender rfl hA rfl haccepts hfits hdepth
  obtain ⟨hagree, hsend⟩ := hnames "ut_pex"
  obtain ⟨hsends, hdelivers⟩ := hsend .initial [100, 101]
  obtain ⟨frame, houtput, -, -, hthere⟩ := hdelivers 1 _ rfl rfl (by decide)
  exact ⟨hresult, hagree.trans (by decide), by decide, hsends.mpr (by decide), frame, houtput,
    hthere .initial⟩

end Registry
end PeerLink
