/-
ZGalaxy/WorldCodec.lean

Worlds written to a buffer and read from it.

An endpoint of a root is a socket address.  That of IPv6 has a flow label and a scope id, which
`InetAddress::operator==` compares and which `serialize` leaves out; a world whose endpoints have
none (`Plain`) is what it was after a round trip.

The form that is signed has no signature and stands between two marks.  It says everything else
about a world, which is proved by a reader for it (`readSigned`).

Main result: `worldCodec`, the round trip at any offset of a buffer and the injectivity of the
signed form, for plain worlds.
-/
import ZGalaxy.World

namespace ZGalaxy

open ByteList

/-! ### What a signed form determines -/

/-- A reader gets one value only from given bytes. -/
theorem readsBack_injective {ε α : Type} {r : Reader ε α} {v v' : α} {enc : Bytes}
    (h : Reader.ReadsBack r v enc) (h' : Reader.ReadsBack r v' enc) : v = v' := by
  have hv := h [] []
  rw [h' [] []] at hv
  exact (congrArg Prod.fst (Except.ok.inj hv)).symm

namespace World

/-- The world without its signature. -/
def unsigned (w : World) : World := { w with signature := [] }

/-- What is written for signing, read back. -/
def readSigned : Reader ZTException World := do
  Reader.skip 8
  let type ← Buffer.nextByte
  let type ← typeOf type
  let id ← Buffer.nextUInt 8
  let timestamp ← Buffer.nextUInt 8
  let updatesMustBeSignedBy ← Buffer.nextField eccPublicKeySetLen
  let numRoots ← Buffer.nextByte
  let roots ← Reader.many Root.deserialize numRoots.toNat
  skipDictionary type
  Reader.skip 8
  pure ⟨UInt64.ofNat id, UInt64.ofNat timestamp, type, updatesMustBeSignedBy, [], roots⟩

/-- **The signed form** is that of one world only, up to the signature. -/
theorem readsBack_signed {w : World} (h : w.WellFormed) :
    Reader.ReadsBack readSigned w.unsigned (w.bytes true) := by
  have hmax : worldMaxRoots = 4 := rfl
  have hle := h.numRoots
  have hid : w.id.toNat < 256 ^ 8 := lt_of_lt_of_eq w.id.toNat_lt (by norm_num)
  have htimestamp : w.timestamp.toNat < 256 ^ 8 :=
    lt_of_lt_of_eq w.timestamp.toNat_lt (by norm_num)
  have hcount : (UInt8.ofNat w.roots.length).toNat = w.roots.length :=
    UInt8.toNat_ofNat_of_lt' (show _ < 256 by omega)
  have hlist : Reader.ReadsBack (Reader.many Root.deserialize w.roots.length) w.roots
      (w.roots.flatMap Root.serialize) :=
    Reader.ReadsBack.many fun r hr => Root.readsBack (h.roots r hr)
  have hworld : (⟨UInt64.ofNat w.id.toNat, UInt64.ofNat w.timestamp.toNat, w.type,
      w.updatesMustBeSignedBy, [], w.roots⟩ : World) = w.unsigned := by
    rw [UInt64.ofNat_toNat, UInt64.ofNat_toNat]
    rfl
  refine (Reader.ReadsBack.skip (List.replicate 8 0x7f)).bind
    ((Buffer.readsBack_byte w.type.toUInt8).bind ((readsBack_type w.type).bind
      ((Buffer.readsBack_uint hid).bind ((Buffer.readsBack_uint htimestamp).bind
        ((Buffer.readsBack_field h.updatesMustBeSignedBy).bind
          ((Buffer.readsBack_byte _).bind ?_))))))
  rw [hcount]
  refine hlist.bind ((readsBack_dictionary w.type).bind ?_)
  rw [hworld]
  exact (Reader.ReadsBack.skip (List.replicate 8 0xf7)).map fun _ => w.unsigned

end World

/-! ### Socket addresses -/

/-- `InetAddress` with all that `operator==` compares. -/
structure SocketAddress where
  address : InetAddress
  flowinfo : UInt32
  scopeId : UInt32
  onlyV6 : address.isV6 = false → flowinfo = 0 ∧ scopeId = 0

namespace SocketAddress

/-- Nothing but what `InetAddress::serialize` writes. -/
def Plain (e : SocketAddress) : Prop := e.flowinfo = 0 ∧ e.scopeId = 0

/-- What `InetAddress::deserialize` leaves in the address, all of which was set to zero. -/
def ofWire (a : InetAddress) : SocketAddress := ⟨a, 0, 0, fun _ => ⟨rfl, rfl⟩⟩

theorem ofWire_address {e : SocketAddress} (plain : e.Plain) : ofWire e.address = e := by
  rcases e with ⟨address, flowinfo, scopeId, onlyV6⟩
  obtain ⟨hflow, hscope⟩ : flowinfo = 0 ∧ scopeId = 0 := plain
  subst hflow hscope
  rfl

end SocketAddress

/-! ### Worlds as they are held -/

/-- `World::Root`, with socket addresses. -/
structure HeldRoot where
  identity : Identity
  stableEndpoints : List SocketAddress

/-- `World`, with socket addresses. -/
structure HeldWorld where
  id : UInt64
  timestamp : UInt64
  type : WorldType
  updatesMustBeSignedBy : Bytes
  signature : Bytes
  roots : List HeldRoot

/-- What is written of a root. -/
def HeldRoot.wire (r : HeldRoot) : Root := ⟨r.identity, r.stableEndpoints.map SocketAddress.address⟩

/-- A root that was read. -/
def HeldRoot.ofWire (r : Root) : HeldRoot :=
  ⟨r.identity, r.stableEndpoints.map SocketAddress.ofWire⟩

theorem HeldRoot.ofWire_wire {r : HeldRoot} (h : ∀ e ∈ r.stableEndpoints, e.Plain) :
    HeldRoot.ofWire r.wire = r := by
  unfold HeldRoot.ofWire HeldRoot.wire
  rw [List.map_map]
  have hmap : r.stableEndpoints.map (SocketAddress.ofWire ∘ SocketAddress.address) =
      r.stableEndpoints :=
    (List.map_congr_left fun e he => SocketAddress.ofWire_address (h e he)).trans (List.map_id _)
  rw [hmap]

namespace HeldWorld

variable (w : HeldWorld)

/-- What is written of a world. -/
def wire : World :=
  ⟨w.id, w.timestamp, w.type, w.updatesMustBeSignedBy, w.signature, w.roots.map HeldRoot.wire⟩

/-- A world that was read. -/
def ofWire (w : World) : HeldWorld :=
  ⟨w.id, w.timestamp, w.type, w.updatesMustBeSignedBy, w.signature, w.roots.map HeldRoot.ofWire⟩

/-- `World::serialize`, appended to a buffer of the given capacity that holds `b`. -/
def serialize (capacity : ℕ) (b : Bytes) (forSign : Bool) : Except ZTException Bytes :=
  if capacity < b.length + (w.wire.bytes forSign).length then .error .outOfBounds
  else .ok (b ++ w.wire.bytes forSign)

/-- `World::deserialize` at an offset: the world, and the number of bytes read. -/
def deserialize (b : Bytes) (startAt : ℕ) : Except ZTException (HeldWorld × ℕ) :=
  (World.read b startAt).map fun out => (ofWire out.1, out.2 - startAt)

/-- No endpoint has a flow label or a scope id. -/
def Plain : Prop := ∀ r ∈ w.roots, ∀ e ∈ r.stableEndpoints, e.Plain

/-- The two worlds differ in the signature at most. -/
structure AgreeUnsigned (w w' : HeldWorld) : Prop where
  id : w.id = w'.id
  timestamp : w.timestamp = w'.timestamp
  type : w.type = w'.type
  updatesMustBeSignedBy : w.updatesMustBeSignedBy = w'.updatesMustBeSignedBy
  roots : w.roots = w'.roots

variable {w}

theorem map_ofWire_wire (plain : w.Plain) :
    (w.roots.map HeldRoot.wire).map HeldRoot.ofWire = w.roots := by
  rw [List.map_map]
  exact (List.map_congr_left fun r hr => HeldRoot.ofWire_wire (plain r hr)).trans (List.map_id _)

theorem ofWire_wire (plain : w.Plain) : ofWire w.wire = w := by
  unfold ofWire wire
  rw [map_ofWire_wire plain]

/-- **Written, then read**: at any offset of a buffer with room, whatever follows. -/
theorem deserialize_serialize (well : w.wire.WellFormed) {capacity : ℕ} {b : Bytes}
    (room : b.length + (w.wire.bytes false).length ≤ capacity) (rest : Bytes) :
    w.serialize capacity b false = .ok (b ++ w.wire.bytes false) ∧
      deserialize (b ++ w.wire.bytes false ++ rest) b.length =
        .ok (ofWire w.wire, (w.wire.bytes false).length) := by
  refine ⟨if_neg (not_lt.mpr room), ?_⟩
  unfold deserialize
  rw [List.append_assoc, show World.read _ b.length = _ from World.readsBack well b rest]
  show Except.ok (ofWire w.wire, b.length + (w.wire.bytes false).length - b.length) = _
  rw [Nat.add_sub_cancel_left]

/-- **Equal signed forms** are those of worlds that agree but for the signature. -/
theorem agreeUnsigned_of_forSign {w w' : HeldWorld} (well : w.wire.WellFormed)
    (well' : w'.wire.WellFormed) (plain : w.Plain) (plain' : w'.Plain)
    (h : w.wire.bytes true = w'.wire.bytes true) : AgreeUnsigned w w' := by
  have hread := World.readsBack_signed well
  rw [h] at hread
  have heq := readsBack_injective hread (World.readsBack_signed well')
  have hroots : w.roots.map HeldRoot.wire = w'.roots.map HeldRoot.wire :=
    congrArg World.roots heq
  refine ⟨congrArg World.id heq, congrArg World.timestamp heq, congrArg World.type heq,
    congrArg World.updatesMustBeSignedBy heq, ?_⟩
  rw [← map_ofWire_wire plain, ← map_ofWire_wire plain']
  exact congrArg (List.map HeldRoot.ofWire) hroots

/-- **The codec of worlds**: a plain world with roots and endpoints within the bounds is read back
from any offset of a buffer with room for it, with as many bytes as were written, and its signed
form is no other's. -/
theorem worldCodec {w : HeldWorld} (well : w.wire.WellFormed) (plain : w.Plain) :
    (∀ (capacity : ℕ) (b rest : Bytes), b.length + (w.wire.bytes false).length ≤ capacity →
      ∃ b', w.serialize capacity b false = .ok b' ∧
        deserialize (b' ++ rest) b.length = .ok (w, b'.length - b.length)) ∧
    ∀ w' : HeldWorld, w'.wire.WellFormed → w'.Plain → w.wire.bytes true = w'.wire.bytes true →
      AgreeUnsigned w w' := by
  constructor
  · intro capacity b rest room
    obtain ⟨hwritten, hread⟩ := deserialize_serialize well room rest
    refine ⟨b ++ w.wire.bytes false, hwritten, ?_⟩
    rw [hread, ofWire_wire plain, List.length_append, Nat.add_sub_cancel_left]
  · intro w' well' plain'
    exact agreeUnsigned_of_forSign well well' plain plain'

/-! ### A world with a scope id -/

/-- A planet with one root at fe80::1, in the given scope. -/
def scopedPlanet (scopeId : UInt32) : HeldWorld where
  id := 1
  timestamp := 1
  type := .planet
  updatesMustBeSignedBy := List.replicate eccPublicKeySetLen 0
  signature := List.replicate eccSignatureLen 0
  roots := [⟨⟨1, List.replicate eccPublicKeySetLen 0⟩,
    [⟨.v6 0xfe800000000000000000000000000001 9993, 0, scopeId, fun h => Bool.noConfusion h⟩]⟩]

theorem scopedPlanet_wellFormed (scopeId : UInt32) : (scopedPlanet scopeId).wire.WellFormed where
  updatesMustBeSignedBy := List.length_replicate
  signature := List.length_replicate
  numRoots := show 1 ≤ worldMaxRoots by decide
  roots := by
    intro r hr
    obtain rfl := List.mem_singleton.mp hr
    exact ⟨List.length_replicate, show 1 ≤ worldMaxStableEndpointsPerRoot by decide⟩

theorem scopedPlanet_plain : (scopedPlanet 0).Plain := by
  intro r hr e he
  obtain rfl := List.mem_singleton.mp hr
  obtain rfl := List.mem_singleton.mp he
  exact ⟨rfl, rfl⟩

theorem scopedPlanet_codec :
    (∀ (capacity : ℕ) (b rest : Bytes),
      b.length + ((scopedPlanet 0).wire.bytes false).length ≤ capacity →
      ∃ b', (scopedPlanet 0).serialize capacity b false = .ok b' ∧
        deserialize (b' ++ rest) b.length = .ok (scopedPlanet 0, b'.length - b.length)) ∧
    ∀ w' : HeldWorld, w'.wire.WellFormed → w'.Plain →
      (scopedPlanet 0).wire.bytes true = w'.wire.bytes true → AgreeUnsigned (scopedPlanet 0) w' :=
  worldCodec (scopedPlanet_wellFormed 0) scopedPlanet_plain

/-- With a scope id the planet is another one after the round trip, and it shares its signed form
with that one. -/
theorem scopedPlanet_lost :
    (∃ capacity b, (scopedPlanet 3).serialize capacity [] false = .ok b ∧
      deserialize b 0 ≠ .ok (scopedPlanet 3, b.length)) ∧
    (scopedPlanet 3).wire.bytes true = (scopedPlanet 0).wire.bytes true ∧
      ¬AgreeUnsigned (scopedPlanet 3) (scopedPlanet 0) := by
  have hdiff : (scopedPlanet 3).roots ≠ (scopedPlanet 0).roots := by
    intro h
    have := congrArg (fun rs : List HeldRoot =>
      rs.flatMap fun r => r.stableEndpoints.map SocketAddress.scopeId) h
    exact absurd this (by decide)
  refine ⟨?_, rfl, fun h => hdiff h.roots⟩
  obtain ⟨hwritten, hread⟩ := deserialize_serialize (b := []) (scopedPlanet_wellFormed 3) le_rfl []
  refine ⟨_, _, hwritten, ?_⟩
  rw [List.append_nil, show ([] : Bytes).length = 0 from rfl] at hread
  rw [hread]
  intro h
  exact hdiff (congrArg (fun out => out.1.roots) (Except.ok.inj h)).symm

end HeldWorld

end ZGalaxy
