/-
ZGalaxy/TryDecode.lean

Which packets pass for authentic before any verb is looked at.

A packet marked as sent over a trusted path is not checked with a key: it passes when some network
that contains the sender has the id that the packet carries.  The table of the networks holds MTUs
as well, so a network that was given nothing but an MTU has the id zero, and the lookup takes zero
like any other id.

Main result: `trusted_iff_given`, that a packet passes only for a network that was given its id,
exactly when the id is not zero or no network without an id contains the sender.
-/
import ZGalaxy.PhysicalPaths
import ZGalaxy.Switch

namespace ZGalaxy

open ByteList

/-! ### Decompression -/

namespace Packet

/-- `ZT_PROTO_VERB_FLAG_COMPRESSED`. -/
def verbFlagCompressed : UInt8 := 0x80

/-- `ZT_PACKET_IDX_PAYLOAD`. -/
def idxPayload : ℕ := 28

/-- `compressed`. -/
def compressed (p : Bytes) : Bool := (byteAt p idxVerb &&& verbFlagCompressed) != 0

/-- `uncompress`, with what `LZ4_decompress_safe` makes of a payload. -/
def uncompress (lz4 : Bytes → Option Bytes) (p : Bytes) : Option Bytes :=
  let clear (p : Bytes) : Bytes := setByte p idxVerb (byteAt p idxVerb &&& ~~~verbFlagCompressed)
  if compressed p ∧ protoMinPacketLength ≤ p.length then
    if idxPayload < p.length then
      match lz4 (p.drop idxPayload) with
      | some buf =>
          if 0 < buf.length ∧ buf.length ≤ protoMaxPacketLength - idxPayload then
            some (clear (p.take idxPayload ++ buf))
          else none
      | none => none
    else some (clear p)
  else some p

end Packet

/-! ### Decoding up to the verb -/

/-- `VERB_HELLO`. -/
def verbHello : UInt8 := 0x01

/-- The keys a peer's packets are opened with. -/
structure PeerSecrets (C : Crypto) where
  key : Bytes
  aesKeys : C.AesKeys

/-- What `tryDecode` uses of the node, apart from the table of physical paths. -/
structure RuntimeEnvironment (C : Crypto) where
  identity : C.PrivateKey
  getPeer : Address → Option (PeerSecrets C)
  /-- `ZT_HAS_FAST_CRYPTO` -/
  fast : Bool
  lz4 : Bytes → Option Bytes
  addresses : InetAddress.Containment

/-- How far a packet comes. -/
inductive Decoded
  /-- `incomingPacketMessageAuthenticationFailure` -/
  | authenticationFailure (reason : String)
  /-- `incomingPacketInvalid` -/
  | invalid (reason : String) (p : IncomingPacket InetAddress)
  /-- `_doHELLO`, not yet authenticated -/
  | hello (p : IncomingPacket InetAddress)
  /-- `requestWhois` -/
  | whois (source : Address) (p : IncomingPacket InetAddress)
  /-- the switch over the verbs -/
  | verb (v : UInt8) (p : IncomingPacket InetAddress)

/-- The packet is kept, as an authentic one. -/
def Decoded.authenticated : Decoded → Bool
  | authenticationFailure _ => false
  | invalid _ p => p.authenticated
  | hello p => p.authenticated
  | whois _ p => p.authenticated
  | verb _ p => p.authenticated

namespace IncomingPacket

variable {C : Crypto} (RR : RuntimeEnvironment C)

/-- `IncomingPacket::tryDecode` once the cipher was looked at. -/
def decodeFrom (p : IncomingPacket InetAddress) : Decoded :=
  let sourceAddress := Packet.source p.data
  match RR.getPeer sourceAddress with
  | none => .whois sourceAddress p
  | some peer =>
      let opened := if p.authenticated then (true, p.data)
        else Packet.dearmor C RR.fast peer.key (some peer.aesKeys) RR.identity p.data
      if opened.1 then
        match Packet.uncompress RR.lz4 opened.2 with
        | none => .invalid "LZ4 decompression failed" { p with data := opened.2 }
        | some data => .verb (Packet.verb data) { p with data := data, authenticated := true }
      else .authenticationFailure "invalid MAC"

/-- `IncomingPacket::tryDecode`, up to the verbs. -/
def tryDecode (topology : PhysicalPaths) (p : IncomingPacket InetAddress) : Decoded :=
  let c := Packet.cipher p.data
  if c = cipherNoCryptoTrustedPath then
    let tpid := UInt64.ofBitVec (Packet.trustedPathId p.data)
    if topology.shouldInboundPathBeTrusted RR.addresses p.path tpid then
      decodeFrom RR { p with authenticated := true }
    else .authenticationFailure "path not trusted"
  else if c = cipherPoly1305None ∧ Packet.verb p.data = verbHello then .hello p
  else decodeFrom RR p

variable {RR} {topology : PhysicalPaths} {p : IncomingPacket InetAddress}

/-- What counts as authentic stays so, whatever becomes of it. -/
theorem authenticated_decodeFrom (h : p.authenticated = true) :
    (decodeFrom RR p).authenticated = true := by
  simp only [decodeFrom, h, if_true]
  rcases RR.getPeer (Packet.source p.data) with - | peer
  · exact h
  · dsimp only
    rcases Packet.uncompress RR.lz4 p.data with - | data
    · rfl
    · rfl

/-- **A trusted path** is all that a packet marked with one is checked for. -/
theorem authenticated_tryDecode (h : Packet.cipher p.data = cipherNoCryptoTrustedPath) :
    (tryDecode RR topology p).authenticated = true ↔
      topology.shouldInboundPathBeTrusted RR.addresses p.path
        (UInt64.ofBitVec (Packet.trustedPathId p.data)) = true := by
  unfold tryDecode
  dsimp only
  rw [if_pos h]
  split_ifs with htrusted
  · exact iff_of_true (authenticated_decodeFrom rfl) htrusted
  · exact iff_of_false Bool.false_ne_true htrusted

end IncomingPacket

/-! ### Networks that were given an id -/

variable {N : InetAddress.Containment} {pton : InetPton} {es : List PathEvent} {T : PhysicalPaths}
  {addr : InetAddress} {id : UInt64}

theorem shouldInboundPathBeTrusted_iff : T.shouldInboundPathBeTrusted N addr id = true ↔
    ∃ e ∈ T.entries, e.2.trustedPathId = id ∧ N.contains e.1 addr = true := by
  unfold PhysicalPaths.shouldInboundPathBeTrusted
  rw [List.any_eq_true]
  refine exists_congr fun e => and_congr_right fun _ => ?_
  rw [Bool.and_eq_true, beq_iff_eq]

/-- A configured network that contains an address was given an id, other than zero. -/
def TrustGiven (N : InetAddress.Containment) (pton : InetPton) (es : List PathEvent)
    (T : PhysicalPaths) (addr : InetAddress) (id : UInt64) : Prop :=
  id ≠ 0 ∧ ∃ e ∈ T.entries, N.contains e.1 addr = true ∧ e.2.trustedPathId = id ∧
    ∃ ev ∈ es, ev.Gives pton e.1 id

/-- An id other than zero is trusted only where it was given. -/
theorem trustGiven_iff (hT : Given pton es T) (hid : id ≠ 0) :
    TrustGiven N pton es T addr id ↔ T.shouldInboundPathBeTrusted N addr id = true := by
  rw [shouldInboundPathBeTrusted_iff]
  constructor
  · rintro ⟨-, e, he, hcontains, heq, -⟩
    exact ⟨e, he, heq, hcontains⟩
  · rintro ⟨e, he, rfl, hcontains⟩
    exact ⟨hid, e, he, hcontains, rfl, hT e he hid⟩

/-- **Trust only where it was given**: a packet marked with a trusted path passes only for a network
that was given its id, exactly when the id is not zero or no network without an id contains the
sender. -/
theorem trusted_iff_given {C : Crypto} (RR : RuntimeEnvironment C) (pton : InetPton)
    (es : List PathEvent) (p : IncomingPacket InetAddress)
    (h : Packet.cipher p.data = cipherNoCryptoTrustedPath) :
    ((p.tryDecode RR ((physicalPaths pton).runState .empty es)).authenticated = true →
        TrustGiven RR.addresses pton es ((physicalPaths pton).runState .empty es) p.path
          (UInt64.ofBitVec (Packet.trustedPathId p.data))) ↔
      UInt64.ofBitVec (Packet.trustedPathId p.data) ≠ 0 ∨
        ∀ e ∈ ((physicalPaths pton).runState .empty es).entries, e.2.trustedPathId = 0 →
          RR.addresses.contains e.1 p.path = false := by
  rw [IncomingPacket.authenticated_tryDecode h]
  by_cases hid : UInt64.ofBitVec (Packet.trustedPathId p.data) = 0
  · -- no network was given zero, so none may have it that contains the sender
    rw [hid, shouldInboundPathBeTrusted_iff]
    constructor
    · intro htrusted
      refine Or.inr fun e he hzero => ?_
      by_contra hcontains
      exact (htrusted ⟨e, he, hzero, Bool.eq_true_of_not_eq_false hcontains⟩).1 rfl
    · rintro (hne | hnone) ⟨e, he, hzero, hcontains⟩
      · exact absurd rfl hne
      · exact absurd hcontains (Bool.eq_false_iff.mp (hnone e he hzero))
  · exact iff_of_true (trustGiven_iff (given_run pton es) hid).mpr (Or.inl hid)

/-- A node with one peer whose networks are as they were configured. -/
def trustingNode : RuntimeEnvironment Packet.flippingCrypto where
  identity := ()
  getPeer := fun _ => some ⟨List.replicate 48 0, ()⟩
  fast := true
  lz4 := fun _ => none
  addresses := ⟨InetAddress.containsAddress, fun _ _ _ => rfl⟩

/-- A packet over a trusted path with an id, sent from 10.1.2.3. -/
def trustedPacket (tpid : UInt8) : IncomingPacket InetAddress where
  data := List.replicate 18 0 ++ [0x10] ++ List.replicate 7 0 ++ [tpid, 0x06]
  receiveTime := 0
  path := .v4 0x0a010203 9993
  authenticated := false

/-- A network that was given the id 0x17 is trusted with it. -/
theorem trusted_iff_given_sample :
    TrustGiven trustingNode.addresses ⟨fun _ => 0, fun _ => 0⟩
      [.setPhysicalPathConfiguration (some (.v4 0x0a000000 8)) (some ⟨0x17, 0⟩)]
      ((physicalPaths ⟨fun _ => 0, fun _ => 0⟩).runState .empty
        [.setPhysicalPathConfiguration (some (.v4 0x0a000000 8)) (some ⟨0x17, 0⟩)])
      (trustedPacket 0x17).path
        (UInt64.ofBitVec (Packet.trustedPathId (trustedPacket 0x17).data)) :=
  (trusted_iff_given trustingNode ⟨fun _ => 0, fun _ => 0⟩ _ (trustedPacket 0x17)
    (by decide +kernel)).mpr (Or.inl (by decide +kernel)) (by decide +kernel)

/-- **Trust without an id**: where `local.conf` gives a network an MTU only, packets with the id
zero pass. -/
theorem trusted_with_zero : ¬ ∀ (pton : InetPton) (es : List PathEvent)
    (p : IncomingPacket InetAddress), Packet.cipher p.data = cipherNoCryptoTrustedPath →
    (p.tryDecode trustingNode ((physicalPaths pton).runState .empty es)).authenticated = true →
    TrustGiven trustingNode.addresses pton es ((physicalPaths pton).runState .empty es) p.path
      (UInt64.ofBitVec (Packet.trustedPathId p.data)) := by
  intro h
  have hgiven := h ⟨fun _ => 0x0a000000, fun _ => 0⟩
    [.readLocalSettings ⟨[], .object [("10.0.0.0/8", .object [("mtu", .integer 1400)])]⟩]
    (trustedPacket 0) (by decide +kernel) (by decide +kernel)
  exact hgiven.1 (by decide +kernel)

end ZGalaxy
