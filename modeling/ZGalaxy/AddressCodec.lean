/-
ZGalaxy/AddressCodec.lean

Socket addresses written to a buffer and read from it, one by one and in rows.

The first byte says what follows it.  Three types are written: nil, IPv4 and IPv6.  Three others are
read, for forward compatibility, as nil: Ethernet and Bluetooth addresses, of six bytes, and other
ones, which begin with their length.  Whoever reads a row of addresses goes on by the number that
`deserialize` returns, and the bytes that this number passes over need not be there.

A row may hold addresses of all six types (`AddressRecord`).  It is read as it was written, with nil
for those of the reserved types, in a root of a world and in a peer that was cached; of the latter
only the addresses that are not nil are tried.

Main results: `addressCodec`; `restoreFromCache_serializeForCache`, that a peer is restored from its
cache, where `deserializeFromCache_serializeForCache` is what the topology has of it.
-/
import ZGalaxy.PeerPaths
import ZGalaxy.Topology
import ZGalaxy.WorldCodec

namespace ZGalaxy

open ByteList

/-- `Buffer::append`, in a buffer of the given capacity. -/
def Buffer.append (capacity : ℕ) (b v : Bytes) : Except ZTException Bytes :=
  if capacity < b.length + v.length then .error .outOfBounds else .ok (b ++ v)

namespace InetAddress

/-- The parts of an address that was read, in the bytes that it was read from. -/
theorem slice_parts {b : Bytes} {p l ip port : ℕ} {type : UInt8} (htype : slice b p 1 = [type])
    (hip : slice b (p + 1) l = beBytes l ip) (hport : slice b (p + 1 + l) 2 = beBytes 2 port) :
    p + (1 + (l + 2)) ≤ b.length ∧
      slice b p (1 + (l + 2)) = [type] ++ (beBytes l ip ++ beBytes 2 port) := by
  constructor
  · have hlength : (slice b (p + 1 + l) 2).length = 2 := by
      rw [hport, length_beBytes]
    have hle := le_of_length_slice Nat.two_pos hlength
    omega
  · rw [← slice_append_slice b p 1, ← slice_append_slice b (p + 1) l, htype, hip, hport]

/-- An IPv4 or IPv6 address that was read lies within the bytes, and is written to those that it
was read from. -/
theorem bytes_of_deserialize {b : Bytes} {p q : ℕ} {a : InetAddress}
    (h : deserialize b p = .ok (a, q)) (hset : a.isSet = true) :
    ∃ n, q = p + n ∧ p + n ≤ b.length ∧ slice b p n = a.serialize := by
  obtain ⟨type, p₁, hread, h⟩ := Reader.bind_ok.mp h
  obtain ⟨rfl, htype⟩ := Buffer.nextByte_bytes hread
  unfold deserializeTyped at h
  split_ifs at h with hnil hfixed hother hv4 hv6
  -- nil, or of a reserved type: read as nil
  · obtain ⟨rfl, -⟩ := Prod.mk.inj (Reader.pure_ok.mp h)
    cases hset
  · obtain ⟨-, p₂, -, h⟩ := Reader.bind_ok.mp h
    obtain ⟨rfl, -⟩ := Prod.mk.inj (Reader.pure_ok.mp h)
    cases hset
  · obtain ⟨n, p₂, -, h⟩ := Reader.bind_ok.mp h
    obtain ⟨-, p₃, -, h⟩ := Reader.bind_ok.mp h
    obtain ⟨rfl, -⟩ := Prod.mk.inj (Reader.pure_ok.mp h)
    cases hset
  -- IPv4: four bytes that are not swapped, and a port that is
  · obtain ⟨ip, p₂, hreadIp, h⟩ := Reader.bind_ok.mp h
    obtain ⟨port, p₃, hreadPort, h⟩ := Reader.bind_ok.mp h
    obtain ⟨rfl, rfl⟩ := Prod.mk.inj (Reader.pure_ok.mp h)
    obtain ⟨rfl, hip, hipLt⟩ := Buffer.nextUInt_bytes hreadIp
    obtain ⟨rfl, hport, hportLt⟩ := Buffer.nextUInt_bytes hreadPort
    obtain ⟨hle, hslice⟩ := slice_parts htype hip hport
    refine ⟨1 + (4 + 2), by omega, hle, hslice.trans ?_⟩
    have hipBack : (BitVec.ofNat 32 ip).toNat = ip := by
      rw [BitVec.toNat_ofNat]
      exact Nat.mod_eq_of_lt (lt_of_lt_of_eq hipLt (by norm_num))
    have hportBack : (UInt16.ofNat port).toNat = port := UInt16.toNat_ofNat_of_lt' hportLt
    rw [serialize, hipBack, hportBack, hv4]
  -- IPv6: the same with sixteen bytes
  · obtain ⟨ip, p₂, hreadIp, h⟩ := Reader.bind_ok.mp h
    obtain ⟨port, p₃, hreadPort, h⟩ := Reader.bind_ok.mp h
    obtain ⟨rfl, rfl⟩ := Prod.mk.inj (Reader.pure_ok.mp h)
    obtain ⟨rfl, hip, hipLt⟩ := Buffer.nextUInt_bytes hreadIp
    obtain ⟨rfl, hport, hportLt⟩ := Buffer.nextUInt_bytes hreadPort
    obtain ⟨hle, hslice⟩ := slice_parts htype hip hport
    refine ⟨1 + (16 + 2), by omega, hle, hslice.trans ?_⟩
    have hipBack : (BitVec.ofNat 128 ip).toNat = ip := by
      rw [BitVec.toNat_ofNat]
      exact Nat.mod_eq_of_lt (lt_of_lt_of_eq hipLt (by norm_num))
    have hportBack : (UInt16.ofNat port).toNat = port := UInt16.toNat_ofNat_of_lt' hportLt
    rw [serialize, hipBack, hportBack, hv6]
  -- no such type
  · cases h

/-- The type is in the first byte. -/
theorem deserialize_eq {b : Bytes} {p : ℕ} (h : p < b.length) :
    deserialize b p = deserializeTyped (byteAt b p) b (p + 1) := by
  have hbyte : Buffer.nextByte b p = .ok (byteAt b p, p + 1) := by
    unfold Buffer.nextByte Buffer.byte
    rw [if_neg (not_le.mpr h)]
    rfl
  show (Buffer.nextByte >>= deserializeTyped) b p = _
  rw [Reader.bind_of_ok hbyte]

end InetAddress

namespace SocketAddress

/-! ### One address -/

/-- `InetAddress::serialize`, to a buffer of the given capacity that holds `b`. -/
def serialize (e : SocketAddress) (capacity : ℕ) (b : Bytes) : Except ZTException Bytes :=
  match e.address with
  | .v4 ip port => do
      let b ← Buffer.append capacity b [0x04]
      let b ← Buffer.append capacity b (beBytes 4 ip.toNat)
      Buffer.append capacity b (beBytes 2 port.toNat)
  | .v6 ip port => do
      let b ← Buffer.append capacity b [0x06]
      let b ← Buffer.append capacity b (beBytes 16 ip.toNat)
      Buffer.append capacity b (beBytes 2 port.toNat)
  | .nil => Buffer.append capacity b [0x00]

/-- `InetAddress::deserialize` at an offset: the address, and the number that is returned. -/
def deserialize (b : Bytes) (startAt : ℕ) : Except ZTException (SocketAddress × ℕ) :=
  (InetAddress.deserialize b startAt).map fun out => (ofWire out.1, out.2 - startAt)

/-- **Written, then read**: in a buffer with room the address is appended, and it is read back at
its offset, whatever follows. -/
structure RoundTrips (e : SocketAddress) : Prop where
  fits : ∀ capacity b, b.length + e.address.serialize.length ≤ capacity →
    e.serialize capacity b = .ok (b ++ e.address.serialize)
  back : ∀ capacity b b', e.serialize capacity b = .ok b' → ∀ c,
    deserialize (b' ++ c) b.length = .ok (e, b'.length - b.length)

/-- **Read, then written**: an IPv4 or IPv6 address lies within the buffer, and it is written to the
bytes that it was read from. -/
structure Rewrites (b : Bytes) (startAt : ℕ) : Prop where
  within : ∀ e n, deserialize b startAt = .ok (e, n) → e.address.isSet = true →
    startAt + n ≤ b.length
  same : ∀ e n, deserialize b startAt = .ok (e, n) → e.address.isSet = true →
    ∀ capacity a, a.length + n ≤ capacity → e.serialize capacity a = .ok (a ++ slice b startAt n)

/-- **The reserved types** are read as nil, and passed over by as much as they say. -/
structure SkipsReserved (b : Bytes) (startAt : ℕ) : Prop where
  fixed : startAt < b.length → byteAt b startAt = 0x01 ∨ byteAt b startAt = 0x02 →
    deserialize b startAt = .ok (ofWire .nil, 7)
  counted : startAt + 3 ≤ b.length → byteAt b startAt = 0x03 →
    deserialize b startAt = .ok (ofWire .nil, beNat (slice b (startAt + 1) 2) + 3)

theorem append_ok {capacity : ℕ} {b v b' : Bytes} (h : Buffer.append capacity b v = .ok b') :
    b' = b ++ v := by
  unfold Buffer.append at h
  split_ifs at h
  exact (Except.ok.inj h).symm

theorem append_of_le {capacity : ℕ} {b v : Bytes} (h : b.length + v.length ≤ capacity) :
    Buffer.append capacity b v = .ok (b ++ v) := if_neg (not_lt.mpr h)

/-- Three parts are appended if there is room for all of them. -/
theorem append_three {capacity : ℕ} {b u v w : Bytes}
    (h : b.length + (u ++ (v ++ w)).length ≤ capacity) :
    (do let b ← Buffer.append capacity b u
        let b ← Buffer.append capacity b v
        Buffer.append capacity b w) = .ok (b ++ (u ++ (v ++ w))) := by
  simp only [List.length_append] at h
  refine Buffer.bind_ok.mpr ⟨b ++ u, append_of_le (by omega), ?_⟩
  refine Buffer.bind_ok.mpr ⟨b ++ u ++ v, append_of_le ?_, ?_⟩
  · rw [List.length_append]
    omega
  · rw [append_of_le]
    · simp only [List.append_assoc]
    · simp only [List.length_append]
      omega

theorem append_three_ok {capacity : ℕ} {b u v w b' : Bytes}
    (h : (do let b ← Buffer.append capacity b u
             let b ← Buffer.append capacity b v
             Buffer.append capacity b w) = .ok b') : b' = b ++ (u ++ (v ++ w)) := by
  obtain ⟨b₁, h₁, h⟩ := Buffer.bind_ok.mp h
  obtain ⟨b₂, h₂, h₃⟩ := Buffer.bind_ok.mp h
  rw [append_ok h₃, append_ok h₂, append_ok h₁]
  simp only [List.append_assoc]

variable {e : SocketAddress} {capacity : ℕ} {b b' : Bytes}

/-- With room, the address is appended. -/
theorem serialize_of_le (h : b.length + e.address.serialize.length ≤ capacity) :
    e.serialize capacity b = .ok (b ++ e.address.serialize) := by
  unfold serialize
  rcases haddress : e.address with - | ⟨ip, port⟩ | ⟨ip, port⟩
  · rw [haddress] at h
    exact append_of_le h
  · rw [haddress] at h
    exact append_three h
  · rw [haddress] at h
    exact append_three h

/-- What was written is the address, behind what was there. -/
theorem serialize_ok (h : e.serialize capacity b = .ok b') : b' = b ++ e.address.serialize := by
  unfold serialize at h
  rcases haddress : e.address with - | ⟨ip, port⟩ | ⟨ip, port⟩
  · rw [haddress] at h
    exact append_ok h
  · rw [haddress] at h
    exact append_three_ok h
  · rw [haddress] at h
    exact append_three_ok h

/-- What is read back is returned with its length. -/
theorem deserialize_of_readsBack {a : InetAddress} {enc : Bytes}
    (h : Reader.ReadsBack InetAddress.deserialize a enc) (b c : Bytes) :
    deserialize (b ++ (enc ++ c)) b.length = .ok (ofWire a, enc.length) := by
  unfold deserialize
  rw [h b c]
  show Except.ok (ofWire a, b.length + enc.length - b.length) = _
  rw [Nat.add_sub_cancel_left]

theorem roundTrips (plain : e.Plain) : RoundTrips e where
  fits _ _ h := serialize_of_le h
  back capacity b b' h c := by
    obtain rfl := serialize_ok h
    rw [List.append_assoc, deserialize_of_readsBack e.address.readsBack, ofWire_address plain,
      List.length_append, Nat.add_sub_cancel_left]

theorem deserialize_ok {startAt n : ℕ} (h : deserialize b startAt = .ok (e, n)) :
    ∃ a q, InetAddress.deserialize b startAt = .ok (a, q) ∧ e = ofWire a ∧ n = q - startAt := by
  unfold deserialize at h
  rcases hread : InetAddress.deserialize b startAt with fault | ⟨a, q⟩
  · rw [hread] at h
    cases h
  · rw [hread] at h
    obtain ⟨rfl, rfl⟩ := Prod.mk.inj (Except.ok.inj h)
    exact ⟨a, q, rfl, rfl, rfl⟩

theorem rewrites (b : Bytes) (startAt : ℕ) : Rewrites b startAt where
  within e n h hset := by
    obtain ⟨a, q, hread, rfl, rfl⟩ := deserialize_ok h
    obtain ⟨l, rfl, hle, -⟩ := InetAddress.bytes_of_deserialize hread hset
    rwa [Nat.add_sub_cancel_left]
  same e n h hset capacity c room := by
    obtain ⟨a, q, hread, rfl, rfl⟩ := deserialize_ok h
    obtain ⟨l, rfl, hle, hslice⟩ := InetAddress.bytes_of_deserialize hread hset
    rw [Nat.add_sub_cancel_left] at room ⊢
    -- the room is asked for by the bytes read, which are those written
    have hlength : a.serialize.length = l := by
      rw [← hslice]
      exact length_slice hle
    rw [hslice]
    exact serialize_of_le (e := ofWire a) (hlength.symm ▸ room)

theorem skipsReserved (b : Bytes) (startAt : ℕ) : SkipsReserved b startAt where
  fixed hlt htype := by
    have hread : InetAddress.deserialize b startAt = .ok (.nil, startAt + 1 + 6) := by
      rw [InetAddress.deserialize_eq hlt]
      rcases htype with htype | htype
      · rw [htype]
        rfl
      · rw [htype]
        rfl
    unfold deserialize
    rw [hread]
    show Except.ok (ofWire .nil, startAt + 1 + 6 - startAt) = _
    rw [Nat.add_assoc, Nat.add_sub_cancel_left]
  counted hle htype := by
    have hcount : Buffer.nextUInt 2 b (startAt + 1) =
        .ok (beNat (slice b (startAt + 1) 2), startAt + 1 + 2) := by
      unfold Buffer.nextUInt Buffer.uintAt Buffer.field
      rw [if_neg (by omega)]
      rfl
    have hread : InetAddress.deserialize b startAt =
        .ok (.nil, startAt + (beNat (slice b (startAt + 1) 2) + 3)) := by
      rw [InetAddress.deserialize_eq (by omega), htype]
      show (Buffer.nextUInt 2 >>= fun n => Reader.skip n >>= fun _ => pure InetAddress.nil)
        b (startAt + 1) = _
      rw [Reader.bind_of_ok hcount]
      show Except.ok (InetAddress.nil, startAt + 1 + 2 + beNat (slice b (startAt + 1) 2)) = _
      rw [show startAt + 1 + 2 + beNat (slice b (startAt + 1) 2) =
        startAt + (beNat (slice b (startAt + 1) 2) + 3) by omega]
    unfold deserialize
    rw [hread]
    show Except.ok (ofWire .nil, startAt + (beNat (slice b (startAt + 1) 2) + 3) - startAt) = _
    rw [Nat.add_sub_cancel_left]

end SocketAddress

/-! ### Rows of addresses -/

/-- An address in a row of bytes: one that is written, or one of a reserved type with what stands
behind its type. -/
inductive AddressRecord
  | known (address : InetAddress)
  | ethernet (data : {v : Bytes // v.length = 6})
  | bluetooth (data : {v : Bytes // v.length = 6})
  | other (data : {v : Bytes // v.length < 65536})

namespace AddressRecord

/-- The bytes of an address. -/
def bytes : AddressRecord → Bytes
  | known address => address.serialize
  | ethernet data => [0x01] ++ data.val
  | bluetooth data => [0x02] ++ data.val
  | other data => [0x03] ++ (beBytes 2 data.val.length ++ data.val)

/-- What is read from them. -/
def address : AddressRecord → InetAddress
  | known address => address
  | _ => .nil

theorem readsBack_skip {n : ℕ} {v : Bytes} (h : v.length = n) :
    Reader.ReadsBack (Reader.skip n : Reader ZTException Unit) () v := h ▸ Reader.ReadsBack.skip v

theorem readsBack (r : AddressRecord) :
    Reader.ReadsBack InetAddress.deserialize r.address r.bytes := by
  rcases r with address | ⟨data, hdata⟩ | ⟨data, hdata⟩ | ⟨data, hdata⟩
  · exact address.readsBack
  -- the type, and as many bytes as it says
  · have hfields : Reader.ReadsBack (InetAddress.deserializeTyped 0x01) .nil data :=
      (readsBack_skip hdata).map fun _ => InetAddress.nil
    exact (Buffer.readsBack_byte 0x01).bind hfields
  · have hfields : Reader.ReadsBack (InetAddress.deserializeTyped 0x02) .nil data :=
      (readsBack_skip hdata).map fun _ => InetAddress.nil
    exact (Buffer.readsBack_byte 0x02).bind hfields
  · have hfields : Reader.ReadsBack (InetAddress.deserializeTyped 0x03) .nil
        (beBytes 2 data.length ++ data) :=
      (Buffer.readsBack_uint hdata).bind
        ((Reader.ReadsBack.skip data).map fun _ => InetAddress.nil)
    exact (Buffer.readsBack_byte 0x03).bind hfields

theorem readsBack_row (rs : List AddressRecord) :
    Reader.ReadsBack (Reader.many InetAddress.deserialize rs.length) (rs.map address)
      (rs.flatMap bytes) :=
  Reader.ReadsBack.many_map fun r _ => r.readsBack

/-- The next address of a row. -/
theorem deserialize_cons (r : AddressRecord) (rs : List AddressRecord) (a c : Bytes) :
    SocketAddress.deserialize (a ++ ((r :: rs).flatMap bytes ++ c)) a.length =
      .ok (.ofWire r.address, r.bytes.length) := by
  rw [List.flatMap_cons, List.append_assoc]
  exact SocketAddress.deserialize_of_readsBack r.readsBack a (rs.flatMap bytes ++ c)

/-- The rest of a row begins where the address ends. -/
theorem append_cons (r : AddressRecord) (rs : List AddressRecord) (a c : Bytes) :
    a ++ ((r :: rs).flatMap bytes ++ c) = a ++ r.bytes ++ (rs.flatMap bytes ++ c) := by
  rw [List.flatMap_cons, List.append_assoc, List.append_assoc]

/-- A row of addresses as they are written. -/
theorem flatMap_known (es : List InetAddress) :
    (es.map known).flatMap bytes = es.flatMap InetAddress.serialize :=
  List.flatMap_map known bytes es

end AddressRecord

/-- `n` addresses: the offset of the next one is advanced by the number that was returned. -/
def SocketAddress.deserializeMany (b : Bytes) :
    ℕ → ℕ → Except ZTException (List SocketAddress × ℕ)
  | 0, p => .ok ([], p)
  | n + 1, p => do
      let (e, l) ← deserialize b p
      let (es, q) ← deserializeMany b n (p + l)
      .ok (e :: es, q)

/-- **A row is read element by element**, and left where it ends. -/
theorem deserializeMany_row (rs : List AddressRecord) (a c : Bytes) :
    SocketAddress.deserializeMany (a ++ (rs.flatMap AddressRecord.bytes ++ c)) rs.length a.length =
      .ok (rs.map fun r => SocketAddress.ofWire r.address,
        a.length + (rs.flatMap AddressRecord.bytes).length) := by
  -- on the row: what was read goes to the bytes before it
  induction rs generalizing a with
  | nil => rfl
  | cons r rs ih =>
      have hrest := ih (a ++ r.bytes)
      rw [← AddressRecord.append_cons, List.length_append] at hrest
      refine Buffer.bind_ok.mpr ⟨_, AddressRecord.deserialize_cons r rs a c, ?_⟩
      refine Buffer.bind_ok.mpr ⟨_, hrest, ?_⟩
      rw [List.flatMap_cons, List.length_append, ← Nat.add_assoc]
      rfl

/-! ### Roots -/

/-- A root, of which the endpoints may be of any type. -/
structure RootRecord where
  identity : Identity
  stableEndpoints : List AddressRecord

namespace RootRecord

/-- The bytes of a root. -/
def bytes (r : RootRecord) : Bytes :=
  r.identity.serialize ++ ([UInt8.ofNat r.stableEndpoints.length]
    ++ r.stableEndpoints.flatMap AddressRecord.bytes)

/-- What is read from them. -/
def root (r : RootRecord) : Root := ⟨r.identity, r.stableEndpoints.map AddressRecord.address⟩

theorem readsBack {r : RootRecord} (h : r.root.WellFormed) :
    Reader.ReadsBack Root.deserialize r.root r.bytes := by
  have hendpoints := AddressRecord.readsBack_row r.stableEndpoints
  have hlength : r.root.stableEndpoints.length = r.stableEndpoints.length := List.length_map _
  rw [← hlength] at hendpoints
  have hroot := Root.readsBack_of_endpoints h hendpoints
  rw [hlength] at hroot
  exact hroot

end RootRecord

namespace World

/-- The bytes of a world with the given roots. -/
def recordBytes (w : World) (roots : List RootRecord) : Bytes :=
  [w.type.toUInt8] ++ (beBytes 8 w.id.toNat ++ (beBytes 8 w.timestamp.toNat
    ++ (w.updatesMustBeSignedBy ++ (w.signature ++ ([UInt8.ofNat roots.length]
      ++ (roots.flatMap RootRecord.bytes ++ if w.type = .moon then beBytes 2 0 else []))))))

/-- The world with the roots that are read from them. -/
def withRoots (w : World) (roots : List RootRecord) : World :=
  { w with roots := roots.map RootRecord.root }

/-- **The endpoints of the roots of a world** are read element by element. -/
theorem readsBack_records {w : World} {roots : List RootRecord}
    (h : (w.withRoots roots).WellFormed) :
    Reader.ReadsBack read (w.withRoots roots) (w.recordBytes roots) := by
  have hlength : (w.withRoots roots).roots.length = roots.length := List.length_map _
  have hroots : Reader.ReadsBack (Reader.many Root.deserialize (w.withRoots roots).roots.length)
      (w.withRoots roots).roots (roots.flatMap RootRecord.bytes) := by
    rw [hlength]
    exact Reader.ReadsBack.many_map fun r hr =>
      RootRecord.readsBack (h.roots r.root (List.mem_map_of_mem hr))
  have hworld := readsBack_of_roots h hroots
  rw [hlength] at hworld
  exact hworld

end World

/-! ### Cached peers -/

namespace Peer

/-- The version of a peer. -/
structure Version where
  vProto : UInt16
  vMajor : UInt16
  vMinor : UInt16
  vRevision : UInt16

/-- The bytes of a version. -/
def Version.bytes (v : Version) : Bytes :=
  beBytes 2 v.vProto.toNat ++ (beBytes 2 v.vMajor.toNat
    ++ (beBytes 2 v.vMinor.toNat ++ beBytes 2 v.vRevision.toNat))

/-- What `Peer::serializeForCache` appends. -/
def serializeForCache (p : Peer) (v : Version) (paths : PeerPaths.PathTable) : Bytes :=
  [2] ++ (p.identity.serialize ++ (v.bytes ++ (beBytes 2 paths.serializedPaths.1
    ++ paths.serializedPaths.2.flatMap InetAddress.serialize)))

/-- The bytes of a cached peer with the given addresses. -/
def recordBytes (p : Peer) (v : Version) (rs : List AddressRecord) : Bytes :=
  [2] ++ (p.identity.serialize ++ (v.bytes ++ (beBytes 2 rs.length
    ++ rs.flatMap AddressRecord.bytes)))

/-- What `Peer::deserializeFromCache` reads before the addresses, with the number of them. -/
def readCached : Reader ZTException (Option (Peer × ℕ)) := do
  let version ← Buffer.nextByte
  if version ≠ 2 then
    pure none
  else
    let id ← Identity.deserialize
    if id.address.isSet then
      let _vProto ← Buffer.nextUInt 2
      let _vMajor ← Buffer.nextUInt 2
      let _vMinor ← Buffer.nextUInt 2
      let _vRevision ← Buffer.nextUInt 2
      let tryPathCount ← Buffer.nextUInt 2
      pure (some (⟨id⟩, tryPathCount))
    else
      pure none

/-- Its loop: the addresses that it attempts to contact.  One that cannot be read ends it. -/
def tryPaths (b : Bytes) : ℕ → ℕ → List SocketAddress
  | 0, _ => []
  | n + 1, ptr =>
      match SocketAddress.deserialize b ptr with
      | .error _ => []
      | .ok (inaddr, l) =>
          if inaddr.address.isSet then inaddr :: tryPaths b n (ptr + l) else tryPaths b n (ptr + l)

/-- `Peer::deserializeFromCache`, with the addresses that it attempts to contact. -/
def restoreFromCache (b : Bytes) : Option (Peer × List SocketAddress) :=
  match readCached b 0 with
  | .ok (some (peer, tryPathCount), ptr) => some (peer, tryPaths b tryPathCount ptr)
  | .ok (none, _) => none
  | .error _ => none

/-- The addresses that are tried of a row: those that are not nil, in order. -/
def tried (rs : List AddressRecord) : List SocketAddress :=
  ((rs.map AddressRecord.address).filter InetAddress.isSet).map SocketAddress.ofWire

theorem tryPaths_row (rs : List AddressRecord) (a c : Bytes) :
    tryPaths (a ++ (rs.flatMap AddressRecord.bytes ++ c)) rs.length a.length = tried rs := by
  -- on the row, as where it is read into a list
  induction rs generalizing a with
  | nil => rfl
  | cons r rs ih =>
      have hrest := ih (a ++ r.bytes)
      rw [← AddressRecord.append_cons, List.length_append] at hrest
      rw [List.length_cons, tryPaths, AddressRecord.deserialize_cons]
      dsimp only
      rw [hrest]
      unfold tried
      rw [List.map_cons, List.filter_cons]
      by_cases hset : r.address.isSet = true
      · rw [if_pos hset]
        exact if_pos hset
      · rw [if_neg hset]
        exact if_neg hset

theorem readsBack_cached {p : Peer} (hkey : p.identity.publicKey.length = eccPublicKeySetLen)
    (hset : p.identity.address.isSet = true) (v : Version) {n : ℕ} (hn : n < 65536) :
    Reader.ReadsBack readCached (some (p, n))
      ([2] ++ (p.identity.serialize ++ (v.bytes ++ beBytes 2 n))) := by
  refine (Buffer.readsBack_byte 2).bind ?_
  rw [if_neg (not_not.mpr rfl)]
  refine (Identity.readsBack hkey).bind ?_
  rw [if_pos hset]
  unfold Version.bytes
  simp only [List.append_assoc]
  exact (Buffer.readsBack_uint v.vProto.toNat_lt).bind
    ((Buffer.readsBack_uint v.vMajor.toNat_lt).bind
      ((Buffer.readsBack_uint v.vMinor.toNat_lt).bind
        ((Buffer.readsBack_uint v.vRevision.toNat_lt).bind
          ((Buffer.readsBack_uint hn).map fun n => some (p, n)))))

/-- **The addresses of a cached peer** are tried element by element, but for those that are nil. -/
theorem restoreFromCache_records {p : Peer}
    (hkey : p.identity.publicKey.length = eccPublicKeySetLen)
    (hset : p.identity.address.isSet = true) (v : Version) {rs : List AddressRecord}
    (hn : rs.length < 65536) (c : Bytes) :
    restoreFromCache (p.recordBytes v rs ++ c) = some (p, tried rs) := by
  have hsplit : p.recordBytes v rs ++ c = ([2] ++ (p.identity.serialize ++ (v.bytes
      ++ beBytes 2 rs.length))) ++ (rs.flatMap AddressRecord.bytes ++ c) := by
    unfold recordBytes
    simp only [List.append_assoc]
  -- the row stands behind what is read first
  have hread := readsBack_cached hkey hset v hn [] (rs.flatMap AddressRecord.bytes ++ c)
  rw [List.nil_append, ← hsplit, List.length_nil, Nat.zero_add] at hread
  unfold restoreFromCache
  rw [hread]
  dsimp only
  rw [hsplit, tryPaths_row]

/-- The peer is the one that is read without its addresses. -/
theorem fst_restoreFromCache (b : Bytes) :
    (restoreFromCache b).map Prod.fst = deserializeFromCache b := by
  have hread : readCache b 0 = (readCached b 0).map fun out => (out.1.map Prod.fst, out.2) := by
    refine Reader.bind_map_congr (fun version b p => ?_) b 0
    by_cases hversion : version ≠ 2
    · rw [if_pos hversion, if_pos hversion]
      rfl
    · rw [if_neg hversion, if_neg hversion]
      refine Reader.bind_map_congr (fun id b p => ?_) b p
      by_cases hset : id.address.isSet = true
      · rw [if_pos hset, if_pos hset]
        -- the version and the number of addresses are read by both
        refine Reader.bind_map_congr (fun _ b p => ?_) b p
        refine Reader.bind_map_congr (fun _ b p => ?_) b p
        refine Reader.bind_map_congr (fun _ b p => ?_) b p
        refine Reader.bind_map_congr (fun _ b p => ?_) b p
        refine Reader.bind_map_congr (fun _ b p => ?_) b p
        rfl
      · rw [if_neg hset, if_neg hset]
        rfl
  unfold restoreFromCache deserializeFromCache
  rw [hread]
  rcases readCached b 0 with fault | ⟨- | ⟨peer, n⟩, ptr⟩
  · rfl
  · rfl
  · rfl

/-- A peer is written with the addresses of its paths. -/
theorem serializeForCache_eq (p : Peer) (v : Version) (paths : PeerPaths.PathTable) :
    p.serializeForCache v paths = p.recordBytes v (paths.serializedPaths.2.map .known) := by
  have hlength : paths.serializedPaths.1 = paths.serializedPaths.2.length := by
    unfold PeerPaths.PathTable.serializedPaths
    rw [PeerPaths.PathTable.untilNull_length, PeerPaths.PathTable.paths, ← List.map_filterMap,
      List.length_map]
  unfold serializeForCache recordBytes
  rw [AddressRecord.flatMap_known, List.length_map, hlength]

/-- **A peer is restored from its cache**, and the addresses of its paths are tried. -/
theorem restoreFromCache_serializeForCache {p : Peer}
    (hkey : p.identity.publicKey.length = eccPublicKeySetLen)
    (hset : p.identity.address.isSet = true) (v : Version) (paths : PeerPaths.PathTable)
    (hn : paths.serializedPaths.2.length < 65536) :
    restoreFromCache (p.serializeForCache v paths) =
      some (p, (paths.serializedPaths.2.filter InetAddress.isSet).map SocketAddress.ofWire) := by
  have hrow : (paths.serializedPaths.2.map AddressRecord.known).length < 65536 := by
    rwa [List.length_map]
  have hread := restoreFromCache_records hkey hset v hrow []
  have haddresses : (paths.serializedPaths.2.map AddressRecord.known).map AddressRecord.address =
      paths.serializedPaths.2 := by
    rw [List.map_map]
    exact List.map_id _
  rw [List.append_nil, ← serializeForCache_eq] at hread
  rw [hread, tried, haddresses]

theorem deserializeFromCache_serializeForCache {p : Peer}
    (hkey : p.identity.publicKey.length = eccPublicKeySetLen)
    (hset : p.identity.address.isSet = true) (v : Version) (paths : PeerPaths.PathTable)
    (hn : paths.serializedPaths.2.length < 65536) :
    deserializeFromCache (p.serializeForCache v paths) = some p := by
  rw [← fst_restoreFromCache, restoreFromCache_serializeForCache hkey hset v paths hn]
  rfl

end Peer

/-! ### The codec -/

/-- **A row is read back**: its addresses in order, wherever it stands, and those of a cached peer
that are not nil. -/
structure RowReadsBack (rs : List AddressRecord) : Prop where
  row : ∀ a c, SocketAddress.deserializeMany (a ++ (rs.flatMap AddressRecord.bytes ++ c)) rs.length
    a.length = .ok (rs.map fun r => SocketAddress.ofWire r.address,
      a.length + (rs.flatMap AddressRecord.bytes).length)
  cached : ∀ (p : Peer) (v : Peer.Version) (c : Bytes),
    p.identity.publicKey.length = eccPublicKeySetLen → p.identity.address.isSet = true →
      rs.length < 65536 →
        Peer.restoreFromCache (p.recordBytes v rs ++ c) = some (p, Peer.tried rs)

theorem rowReadsBack (rs : List AddressRecord) : RowReadsBack rs where
  row := deserializeMany_row rs
  cached _ v c hkey hset hn := Peer.restoreFromCache_records hkey hset v hn c

/-- **The wire codec of addresses.**  A plain address is read back from where it was appended, with
the number of bytes that were appended; an IPv4 or IPv6 address that is read lies within the buffer
and is written to the same bytes; the reserved types are read as nil and passed over; and rows of
addresses of all types are read back in order, also in the roots of a world and in a cached peer. -/
theorem addressCodec {e : SocketAddress} (plain : e.Plain) (b : Bytes) (startAt : ℕ)
    (rs : List AddressRecord) {w : World} {roots : List RootRecord}
    (well : (w.withRoots roots).WellFormed) :
    e.RoundTrips ∧ SocketAddress.Rewrites b startAt ∧ SocketAddress.SkipsReserved b startAt ∧
      RowReadsBack rs ∧ Reader.ReadsBack World.read (w.withRoots roots) (w.recordBytes roots) :=
  ⟨SocketAddress.roundTrips plain, SocketAddress.rewrites b startAt,
    SocketAddress.skipsReserved b startAt, rowReadsBack rs, World.readsBack_records well⟩

/-- A row with an address of each type. -/
def oneOfEach : List AddressRecord :=
  [.known .nil, .ethernet ⟨[1, 2, 3, 4, 5, 6], rfl⟩, .bluetooth ⟨[1, 2, 3, 4, 5, 6], rfl⟩,
    .other ⟨[1, 2, 3], by decide⟩, .known (.v4 0x0a000001 9993),
    .known (.v6 0xfe800000000000000000000000000001 9993)]

example : (SocketAddress.deserializeMany (oneOfEach.flatMap AddressRecord.bytes) 6 0).toOption.map
    (fun out => (out.1.map SocketAddress.address, out.2)) =
      some ([.nil, .nil, .nil, .nil, .v4 0x0a000001 9993,
        .v6 0xfe800000000000000000000000000001 9993], 47) := by
  decide +kernel

/-- A planet with one root, to be given endpoints. -/
def onePlanet : World where
  id := 1
  timestamp := 1
  type := .planet
  updatesMustBeSignedBy := List.replicate eccPublicKeySetLen 0
  signature := List.replicate eccSignatureLen 0
  roots := []

/-- A root with an endpoint of each type. -/
def oneRoot : RootRecord := ⟨⟨1, List.replicate eccPublicKeySetLen 0⟩, oneOfEach⟩

theorem wellFormed_onePlanet : (onePlanet.withRoots [oneRoot]).WellFormed where
  updatesMustBeSignedBy := List.length_replicate
  signature := List.length_replicate
  numRoots := show 1 ≤ worldMaxRoots by decide
  roots := by
    intro r hr
    obtain rfl := List.mem_singleton.mp hr
    exact ⟨List.length_replicate, show 6 ≤ worldMaxStableEndpointsPerRoot by decide⟩

/-- The IPv4 address of the row, the row itself, and a planet with it. -/
theorem addressCodec_oneOfEach :
    (SocketAddress.ofWire (.v4 0x0a000001 9993)).RoundTrips ∧
      SocketAddress.Rewrites (oneOfEach.flatMap AddressRecord.bytes) 21 ∧
      SocketAddress.SkipsReserved (oneOfEach.flatMap AddressRecord.bytes) 21 ∧
      RowReadsBack oneOfEach ∧
      Reader.ReadsBack World.read (onePlanet.withRoots [oneRoot])
        (onePlanet.recordBytes [oneRoot]) :=
  addressCodec ⟨rfl, rfl⟩ (oneOfEach.flatMap AddressRecord.bytes) 21 oneOfEach wellFormed_onePlanet

end ZGalaxy
