/-
ZGalaxy/World.lean

Worlds: the planet and the moons, as they are kept, signed and stored.

A world is written as one row of bytes and read back from it.  The reader takes at most four
roots, with at most thirty-two endpoints each; the writer writes what it is given, and the
numbers of roots and of endpoints in one byte each.

What was read is within the bounds (`wellFormed_of_deserialize`), and a world within them that
is written is read back as it was: `deserialize_bytes`.
-/
import ZGalaxy.Buffer
import ZGalaxy.Credentials
import ZGalaxy.Reader

namespace ZGalaxy

open ByteList

/-! ### Fields -/

namespace Buffer

/-- The next byte. -/
def nextByte : Reader ZTException UInt8 := fun b p => (byte b p).map fun x => (x, p + 1)

/-- The next `l` bytes. -/
def nextField (l : ℕ) : Reader ZTException Bytes := fun b p => (field b p l).map fun v => (v, p + l)

/-- The next unsigned integer of `n` bytes. -/
def nextUInt (n : ℕ) : Reader ZTException ℕ := fun b p => (uintAt n b p).map fun v => (v, p + n)

theorem readsBack_byte (x : UInt8) : Reader.ReadsBack nextByte x [x] := by
  intro a c
  unfold nextByte
  rw [byte_at rfl rfl]
  rfl

theorem readsBack_field {v : Bytes} {l : ℕ} (h : v.length = l) :
    Reader.ReadsBack (nextField l) v v := by
  intro a c
  unfold nextField
  rw [field_at rfl rfl h, h]
  rfl

theorem readsBack_uint {n v : ℕ} (h : v < 256 ^ n) :
    Reader.ReadsBack (nextUInt n) v (beBytes n v) := by
  intro a c
  unfold nextUInt
  rw [uintAt_at rfl rfl h, length_beBytes]
  rfl

theorem nextField_ok {l : ℕ} {b v : Bytes} {p q : ℕ} (h : nextField l b p = .ok (v, q)) :
    v.length = l := by
  unfold nextField at h
  rcases hf : field b p l with e | w
  · rw [hf] at h
    cases h
  · rw [hf] at h
    cases h
    exact length_field hf

theorem nextByte_bytes {b : Bytes} {p q : ℕ} {x : UInt8} (h : nextByte b p = .ok (x, q)) :
    q = p + 1 ∧ slice b p 1 = [x] := by
  unfold nextByte byte at h
  split_ifs at h with hlen
  · cases h
  · obtain ⟨rfl, rfl⟩ := Prod.mk.inj (Except.ok.inj h)
    exact ⟨rfl, slice_one (not_le.mp hlen)⟩

theorem nextField_bytes {b v : Bytes} {l p q : ℕ} (h : nextField l b p = .ok (v, q)) :
    q = p + l ∧ slice b p l = v ∧ v.length = l := by
  have hlength := nextField_ok h
  unfold nextField at h
  rcases hf : field b p l with e | w
  · rw [hf] at h
    cases h
  · rw [hf] at h
    obtain ⟨rfl, rfl⟩ := Prod.mk.inj (Except.ok.inj h)
    exact ⟨rfl, (field_ok.mp hf).2, hlength⟩

theorem nextUInt_bytes {b : Bytes} {n p q v : ℕ} (h : nextUInt n b p = .ok (v, q)) :
    q = p + n ∧ slice b p n = beBytes n v ∧ v < 256 ^ n := by
  unfold nextUInt at h
  rcases hu : uintAt n b p with e | x
  · rw [hu] at h
    cases h
  · rw [hu] at h
    obtain ⟨rfl, rfl⟩ := Prod.mk.inj (Except.ok.inj h)
    refine ⟨rfl, ?_, uintAt_lt hu⟩
    unfold uintAt at hu
    rcases hf : field b p n with e | w
    · rw [hf] at hu
      cases hu
    · rw [hf] at hu
      have hback := beBytes_beNat w
      rw [length_field hf] at hback
      rw [← Except.ok.inj hu, hback]
      exact (field_ok.mp hf).2

end Buffer

theorem length_flatMap_le {α : Type*} {f : α → Bytes} {n : ℕ} {l : List α}
    (h : ∀ x ∈ l, (f x).length ≤ n) : (l.flatMap f).length ≤ n * l.length := by
  induction l with
  | nil => exact Nat.zero_le _
  | cons x l ih =>
      have hx := h x List.mem_cons_self
      have hl := ih fun y hy => h y (List.mem_cons_of_mem x hy)
      rw [List.flatMap_cons, List.length_append, List.length_cons, Nat.mul_add]
      omega

/-! ### Endpoints -/

namespace InetAddress

/-- `InetAddress::isV4`. -/
def isV4 : InetAddress → Bool
  | v4 _ _ => true
  | _ => false

/-- `InetAddress::port`. -/
def port : InetAddress → UInt16
  | nil => 0
  | v4 _ port => port
  | v6 _ port => port

/-- `InetAddress::serialize`. -/
def serialize : InetAddress → Bytes
  | nil => [0x00]
  | v4 ip port => [0x04] ++ (beBytes 4 ip.toNat ++ beBytes 2 port.toNat)
  | v6 ip port => [0x06] ++ (beBytes 16 ip.toNat ++ beBytes 2 port.toNat)

/-- What `InetAddress::deserialize` reads after the type of the address. -/
def deserializeTyped (type : UInt8) : Reader ZTException InetAddress :=
  if type = 0x00 then
    pure nil
  else if type = 0x01 ∨ type = 0x02 then do
    -- Ethernet and Bluetooth addresses, accepted for forward compatibility
    Reader.skip 6
    pure nil
  else if type = 0x03 then do
    -- other addresses begin with 16-bit non-inclusive length
    let n ← Buffer.nextUInt 2
    Reader.skip n
    pure nil
  else if type = 0x04 then do
    let ip ← Buffer.nextUInt 4
    let port ← Buffer.nextUInt 2
    pure (v4 (BitVec.ofNat 32 ip) (UInt16.ofNat port))
  else if type = 0x06 then do
    let ip ← Buffer.nextUInt 16
    let port ← Buffer.nextUInt 2
    pure (v6 (BitVec.ofNat 128 ip) (UInt16.ofNat port))
  else
    Reader.fail .invalidSerializedData

/-- `InetAddress::deserialize`. -/
def deserialize : Reader ZTException InetAddress := do
  let type ← Buffer.nextByte
  deserializeTyped type

/-- An endpoint is read back as it was written. -/
theorem readsBack (e : InetAddress) : Reader.ReadsBack deserialize e e.serialize := by
  rcases e with - | ⟨ip, port⟩ | ⟨ip, port⟩
  · exact (Buffer.readsBack_byte 0x00).bind (Reader.ReadsBack.pure nil)
  · have hip : ip.toNat < 256 ^ 4 := ip.isLt
    have hport : port.toNat < 256 ^ 2 := port.toNat_lt
    have hpure : v4 (BitVec.ofNat 32 ip.toNat) (UInt16.ofNat port.toNat) = v4 ip port := by
      rw [BitVec.ofNat_toNat, BitVec.setWidth_eq, UInt16.ofNat_toNat]
    have hfields : Reader.ReadsBack (deserializeTyped 0x04) (v4 ip port)
        (beBytes 4 ip.toNat ++ beBytes 2 port.toNat) := by
      rw [← hpure]
      exact (Buffer.readsBack_uint hip).bind ((Buffer.readsBack_uint hport).map _)
    exact (Buffer.readsBack_byte 0x04).bind hfields
  · have hip : ip.toNat < 256 ^ 16 := lt_of_lt_of_eq ip.isLt (by norm_num)
    have hport : port.toNat < 256 ^ 2 := port.toNat_lt
    have hpure : v6 (BitVec.ofNat 128 ip.toNat) (UInt16.ofNat port.toNat) = v6 ip port := by
      rw [BitVec.ofNat_toNat, BitVec.setWidth_eq, UInt16.ofNat_toNat]
    have hfields : Reader.ReadsBack (deserializeTyped 0x06) (v6 ip port)
        (beBytes 16 ip.toNat ++ beBytes 2 port.toNat) := by
      rw [← hpure]
      exact (Buffer.readsBack_uint hip).bind ((Buffer.readsBack_uint hport).map _)
    exact (Buffer.readsBack_byte 0x06).bind hfields

theorem length_serialize_le (e : InetAddress) : e.serialize.length ≤ 19 := by
  rcases e with - | ⟨ip, port⟩ | ⟨ip, port⟩
  · exact Nat.succ_le_succ (Nat.zero_le 18)
  · simp [serialize]
  · simp [serialize]

end InetAddress

/-! ### Identities -/

/-- `ZT_ECC_PUBLIC_KEY_SET_LEN`. -/
def eccPublicKeySetLen : ℕ := 64

/-- `ZT_ECC_PRIVATE_KEY_SET_LEN`. -/
def eccPrivateKeySetLen : ℕ := 64

namespace Identity

/-- `Identity::serialize`, without the private key. -/
def serialize (id : Identity) : Bytes :=
  Address.toBytes id.address ++ ([0] ++ (id.publicKey ++ [0]))

/-- `Identity::deserialize`, which drops a private key. -/
def deserialize : Reader ZTException Identity := do
  let address ← Buffer.nextField addressLength
  let type ← Buffer.nextByte
  if type ≠ 0 then
    Reader.fail .invalidSerializedData
  else
    let publicKey ← Buffer.nextField eccPublicKeySetLen
    let privateKeyLength ← Buffer.nextByte
    if privateKeyLength ≠ 0 then
      if privateKeyLength.toNat ≠ eccPrivateKeySetLen then
        Reader.fail .invalidSerializedData
      else
        let _ ← Buffer.nextField eccPrivateKeySetLen
        pure ⟨Address.ofBytes address, publicKey⟩
    else
      pure ⟨Address.ofBytes address, publicKey⟩

/-- An identity is read back as it was written. -/
theorem readsBack {id : Identity} (h : id.publicKey.length = eccPublicKeySetLen) :
    Reader.ReadsBack deserialize id id.serialize := by
  have hpure : (⟨Address.ofBytes (Address.toBytes id.address), id.publicKey⟩ : Identity) = id := by
    rw [Address.ofBytes_toBytes]
  have hkey : Reader.ReadsBack (pure ⟨Address.ofBytes (Address.toBytes id.address), id.publicKey⟩ :
      Reader ZTException Identity) id [] := by
    rw [hpure]
    exact Reader.ReadsBack.pure id
  exact (Buffer.readsBack_field (Address.length_toBytes id.address)).bind
    ((Buffer.readsBack_byte 0).bind ((Buffer.readsBack_field h).bind
      ((Buffer.readsBack_byte 0).bind hkey)))

/-- A public key that was read has its length. -/
theorem length_publicKey {b : Bytes} {p q : ℕ} {id : Identity}
    (h : deserialize b p = .ok (id, q)) : id.publicKey.length = eccPublicKeySetLen := by
  obtain ⟨address, p₁, -, h⟩ := Reader.bind_ok.mp h
  obtain ⟨type, p₂, -, h⟩ := Reader.bind_ok.mp h
  split_ifs at h with htype
  · cases h
  · obtain ⟨publicKey, p₃, hkey, h⟩ := Reader.bind_ok.mp h
    obtain ⟨n, p₄, -, h⟩ := Reader.bind_ok.mp h
    have hlen := Buffer.nextField_ok hkey
    split_ifs at h with hn hlength
    · cases h
    · obtain ⟨_, p₅, -, h⟩ := Reader.bind_ok.mp h
      obtain ⟨rfl, -⟩ := Prod.mk.inj (Reader.pure_ok.mp h)
      exact hlen
    · obtain ⟨rfl, -⟩ := Prod.mk.inj (Reader.pure_ok.mp h)
      exact hlen

end Identity

/-! ### Worlds -/

/-- `ZT_WORLD_MAX_ROOTS`. -/
def worldMaxRoots : ℕ := 4

/-- `ZT_WORLD_MAX_STABLE_ENDPOINTS_PER_ROOT`. -/
def worldMaxStableEndpointsPerRoot : ℕ := 32

/-- `ZT_WORLD_MAX_SERIALIZED_LENGTH`. -/
def worldMaxSerializedLength : ℕ :=
  (1024 + 32 * worldMaxStableEndpointsPerRoot) * worldMaxRoots + eccPublicKeySetLen
    + eccSignatureLen + 128

/-- `World::Type`. -/
inductive WorldType
  | null
  | planet
  | moon
deriving DecidableEq

/-- The numbers of the types, which do not change. -/
def WorldType.toUInt8 : WorldType → UInt8
  | null => 0
  | planet => 1
  | moon => 127

/-- `World::Root`. -/
structure Root where
  identity : Identity
  stableEndpoints : List InetAddress
deriving DecidableEq

/-- `World`. -/
structure World where
  id : UInt64
  timestamp : UInt64
  type : WorldType
  updatesMustBeSignedBy : Bytes
  signature : Bytes
  roots : List Root
deriving DecidableEq

namespace Root

/-- A root in a row of bytes. -/
def serialize (r : Root) : Bytes :=
  r.identity.serialize ++ ([UInt8.ofNat r.stableEndpoints.length]
    ++ r.stableEndpoints.flatMap InetAddress.serialize)

/-- A root from a row of bytes. -/
def deserialize : Reader ZTException Root := do
  let identity ← Identity.deserialize
  let numStableEndpoints ← Buffer.nextByte
  if worldMaxStableEndpointsPerRoot < numStableEndpoints.toNat then
    Reader.fail .invalidSerializedData
  else
    let stableEndpoints ← Reader.many InetAddress.deserialize numStableEndpoints.toNat
    pure ⟨identity, stableEndpoints⟩

/-- A root that can be read. -/
structure WellFormed (r : Root) : Prop where
  publicKey : r.identity.publicKey.length = eccPublicKeySetLen
  endpoints : r.stableEndpoints.length ≤ worldMaxStableEndpointsPerRoot

/-- A root is read back when its endpoints are. -/
theorem readsBack_of_endpoints {r : Root} (h : r.WellFormed) {enc : Bytes}
    (hendpoints : Reader.ReadsBack (Reader.many InetAddress.deserialize r.stableEndpoints.length)
      r.stableEndpoints enc) :
    Reader.ReadsBack deserialize r
      (r.identity.serialize ++ ([UInt8.ofNat r.stableEndpoints.length] ++ enc)) := by
  have hmax : worldMaxStableEndpointsPerRoot = 32 := rfl
  have hle := h.endpoints
  have hcount : (UInt8.ofNat r.stableEndpoints.length).toNat = r.stableEndpoints.length :=
    UInt8.toNat_ofNat_of_lt' (show _ < 256 by omega)
  refine (Identity.readsBack h.publicKey).bind ((Buffer.readsBack_byte _).bind ?_)
  rw [hcount, if_neg (not_lt.mpr hle)]
  exact hendpoints.map (Root.mk r.identity)

theorem readsBack {r : Root} (h : r.WellFormed) : Reader.ReadsBack deserialize r r.serialize :=
  readsBack_of_endpoints h (Reader.ReadsBack.many fun e _ => e.readsBack)

/-- A root that was read can be read. -/
theorem wellFormed_of_deserialize {b : Bytes} {p q : ℕ} {r : Root}
    (h : deserialize b p = .ok (r, q)) : r.WellFormed := by
  obtain ⟨identity, p₁, hidentity, h⟩ := Reader.bind_ok.mp h
  obtain ⟨n, p₂, -, h⟩ := Reader.bind_ok.mp h
  split_ifs at h with hn
  · cases h
  · obtain ⟨stableEndpoints, p₃, hlist, h⟩ := Reader.bind_ok.mp h
    obtain ⟨rfl, -⟩ := Prod.mk.inj (Reader.pure_ok.mp h)
    refine ⟨Identity.length_publicKey hidentity, ?_⟩
    show stableEndpoints.length ≤ _
    rw [(Reader.many_ok hlist).1]
    exact not_lt.mp hn

theorem length_serialize_le {r : Root} (h : r.WellFormed) : r.serialize.length ≤ 680 := by
  have hmax : worldMaxStableEndpointsPerRoot = 32 := rfl
  have hkey : r.identity.publicKey.length = 64 := h.publicKey
  have hle := h.endpoints
  have hlist := length_flatMap_le (l := r.stableEndpoints) fun e _ => e.length_serialize_le
  have haddress : addressLength = 5 := rfl
  simp only [serialize, Identity.serialize, List.length_append, Address.length_toBytes,
    List.length_singleton]
  omega

end Root

namespace World

/-- The empty world.  Its key and signature are not set and never read. -/
def null : World := ⟨0, 0, .null, [], [], []⟩

/-- `World::operator bool`. -/
def isSet (w : World) : Bool := w.type != .null

/-- `World::setRootStableEndpoints`. -/
def setRootStableEndpoints (w : World) (rootIndex : ℕ) (eps : List InetAddress) : World :=
  { w with roots := w.roots.modify rootIndex fun r => { r with stableEndpoints := eps } }

/-- What `World::serialize` appends to the buffer. -/
def bytes (w : World) (forSign : Bool) : Bytes :=
  (if forSign then List.replicate 8 0x7f else [])
    ++ ([w.type.toUInt8] ++ (beBytes 8 w.id.toNat ++ (beBytes 8 w.timestamp.toNat
      ++ (w.updatesMustBeSignedBy ++ ((if forSign then [] else w.signature)
        ++ ([UInt8.ofNat w.roots.length] ++ (w.roots.flatMap Root.serialize
          -- no attached dictionary (for future use)
          ++ ((if w.type = .moon then beBytes 2 0 else [])
            ++ (if forSign then List.replicate 8 0xf7 else [])))))))))

/-- `World::serialize`, into a buffer of `ZT_WORLD_MAX_SERIALIZED_LENGTH` bytes. -/
def serialize (w : World) (forSign : Bool) : Except ZTException Bytes :=
  if worldMaxSerializedLength < (w.bytes forSign).length then .error .outOfBounds
  else .ok (w.bytes forSign)

/-- The type of a number, if it has one. -/
def typeOf (type : UInt8) : Reader ZTException WorldType :=
  if type = 0 then pure .null
  else if type = 1 then pure .planet
  else if type = 127 then pure .moon
  else Reader.fail .invalidSerializedData

/-- The dictionary attached to a moon is passed over. -/
def skipDictionary (type : WorldType) : Reader ZTException Unit :=
  if type = .moon then do
    let n ← Buffer.nextUInt 2
    Reader.skip n
  else
    pure ()

/-- What `World::deserialize` reads. -/
def read : Reader ZTException World := do
  let type ← Buffer.nextByte
  let type ← typeOf type
  let id ← Buffer.nextUInt 8
  let timestamp ← Buffer.nextUInt 8
  let updatesMustBeSignedBy ← Buffer.nextField eccPublicKeySetLen
  let signature ← Buffer.nextField eccSignatureLen
  let numRoots ← Buffer.nextByte
  if worldMaxRoots < numRoots.toNat then
    Reader.fail .invalidSerializedData
  else
    let roots ← Reader.many Root.deserialize numRoots.toNat
    skipDictionary type
    pure ⟨UInt64.ofNat id, UInt64.ofNat timestamp, type, updatesMustBeSignedBy, signature, roots⟩

/-- `World::deserialize`, from the start of a buffer. -/
def deserialize (b : Bytes) : Except ZTException World := (read b 0).map Prod.fst

/-- `World::shouldBeReplacedBy`. -/
def shouldBeReplacedBy (ecc : Ecc) (w update : World) : Except ZTException Bool :=
  if w.id = 0 ∨ w.type = .null then .ok true
  else if w.id = update.id ∧ w.timestamp < update.timestamp ∧ w.type = update.type then
    (update.serialize true).map fun tmp =>
      ecc.verify w.updatesMustBeSignedBy tmp update.signature
  else .ok false

/-! ### Stored and loaded -/

/-- A world that can be read. -/
structure WellFormed (w : World) : Prop where
  updatesMustBeSignedBy : w.updatesMustBeSignedBy.length = eccPublicKeySetLen
  signature : w.signature.length = eccSignatureLen
  numRoots : w.roots.length ≤ worldMaxRoots
  roots : ∀ r ∈ w.roots, r.WellFormed

theorem readsBack_type (type : WorldType) :
    Reader.ReadsBack (typeOf type.toUInt8) type [] := by
  rcases type with - | - | -
  · exact Reader.ReadsBack.pure _
  · exact Reader.ReadsBack.pure _
  · exact Reader.ReadsBack.pure _

theorem readsBack_dictionary (type : WorldType) :
    Reader.ReadsBack (skipDictionary type) () (if type = .moon then beBytes 2 0 else []) := by
  unfold skipDictionary
  by_cases hmoon : type = .moon
  · rw [if_pos hmoon, if_pos hmoon, ← List.append_nil (beBytes 2 0)]
    exact (Buffer.readsBack_uint (show 0 < 256 ^ 2 by norm_num)).bind (Reader.ReadsBack.skip [])
  · rw [if_neg hmoon, if_neg hmoon]
    exact Reader.ReadsBack.pure ()

/-- A world is read back when its roots are. -/
theorem readsBack_of_roots {w : World} (h : w.WellFormed) {enc : Bytes}
    (hroots : Reader.ReadsBack (Reader.many Root.deserialize w.roots.length) w.roots enc) :
    Reader.ReadsBack read w ([w.type.toUInt8] ++ (beBytes 8 w.id.toNat
      ++ (beBytes 8 w.timestamp.toNat ++ (w.updatesMustBeSignedBy ++ (w.signature
        ++ ([UInt8.ofNat w.roots.length] ++ (enc
          ++ if w.type = .moon then beBytes 2 0 else []))))))) := by
  have hmax : worldMaxRoots = 4 := rfl
  have hle := h.numRoots
  have hid : w.id.toNat < 256 ^ 8 := lt_of_lt_of_eq w.id.toNat_lt (by norm_num)
  have htimestamp : w.timestamp.toNat < 256 ^ 8 := lt_of_lt_of_eq w.timestamp.toNat_lt (by norm_num)
  have hcount : (UInt8.ofNat w.roots.length).toNat = w.roots.length :=
    UInt8.toNat_ofNat_of_lt' (show _ < 256 by omega)
  have hworld : (⟨UInt64.ofNat w.id.toNat, UInt64.ofNat w.timestamp.toNat, w.type,
      w.updatesMustBeSignedBy, w.signature, w.roots⟩ : World) = w := by
    rw [UInt64.ofNat_toNat, UInt64.ofNat_toNat]
  refine (Buffer.readsBack_byte w.type.toUInt8).bind ((readsBack_type w.type).bind
    ((Buffer.readsBack_uint hid).bind ((Buffer.readsBack_uint htimestamp).bind
      ((Buffer.readsBack_field h.updatesMustBeSignedBy).bind
        ((Buffer.readsBack_field h.signature).bind ((Buffer.readsBack_byte _).bind ?_))))))
  rw [hcount, if_neg (not_lt.mpr hle)]
  refine hroots.bind ?_
  rw [hworld]
  exact (readsBack_dictionary w.type).map fun _ => w

theorem readsBack {w : World} (h : w.WellFormed) : Reader.ReadsBack read w (w.bytes false) := by
  have hroots : Reader.ReadsBack (Reader.many Root.deserialize w.roots.length) w.roots
      (w.roots.flatMap Root.serialize) :=
    Reader.ReadsBack.many fun r hr => Root.readsBack (h.roots r hr)
  have hworld := readsBack_of_roots h hroots
  unfold bytes
  rw [if_neg Bool.false_ne_true, if_neg Bool.false_ne_true, if_neg Bool.false_ne_true,
    List.append_nil, List.nil_append]
  exact hworld

/-- **What was read can be read.** -/
theorem wellFormed_of_deserialize {b : Bytes} {w : World} (h : deserialize b = .ok w) :
    w.WellFormed := by
  unfold deserialize at h
  rcases hread : read b 0 with e | ⟨w', q⟩
  · rw [hread] at h
    cases h
  rw [hread] at h
  obtain rfl : w' = w := Except.ok.inj h
  obtain ⟨_, _, -, hread⟩ := Reader.bind_ok.mp hread
  obtain ⟨type, _, -, hread⟩ := Reader.bind_ok.mp hread
  obtain ⟨id, _, -, hread⟩ := Reader.bind_ok.mp hread
  obtain ⟨timestamp, _, -, hread⟩ := Reader.bind_ok.mp hread
  obtain ⟨key, _, hkey, hread⟩ := Reader.bind_ok.mp hread
  obtain ⟨signature, _, hsignature, hread⟩ := Reader.bind_ok.mp hread
  obtain ⟨n, _, -, hread⟩ := Reader.bind_ok.mp hread
  split_ifs at hread with hn
  · cases hread
  obtain ⟨roots, _, hroots, hread⟩ := Reader.bind_ok.mp hread
  obtain ⟨hlen, hmem⟩ := Reader.many_ok hroots
  have hwell : (⟨UInt64.ofNat id, UInt64.ofNat timestamp, type, key, signature, roots⟩ :
      World).WellFormed := by
    refine ⟨Buffer.nextField_ok hkey, Buffer.nextField_ok hsignature, ?_, fun r hr => ?_⟩
    · show roots.length ≤ _
      rw [hlen]
      exact not_lt.mp hn
    · obtain ⟨_, _, hr⟩ := hmem r hr
      exact Root.wellFormed_of_deserialize hr
  obtain ⟨_, _, -, hread⟩ := Reader.bind_ok.mp hread
  obtain ⟨rfl, -⟩ := Prod.mk.inj (Reader.pure_ok.mp hread)
  exact hwell

/-- A world that can be read fits in the buffer. -/
theorem serialize_of_wellFormed {w : World} (h : w.WellFormed) :
    w.serialize false = .ok (w.bytes false) := by
  have hroots := length_flatMap_le (f := Root.serialize)
    (l := w.roots) fun r hr => Root.length_serialize_le (h.roots r hr)
  have hle : w.roots.length ≤ 4 := h.numRoots
  have hkey : w.updatesMustBeSignedBy.length = 64 := h.updatesMustBeSignedBy
  have hsignature : w.signature.length = 96 := h.signature
  have hmax : worldMaxSerializedLength = 8480 := rfl
  have hmoon : (if w.type = .moon then beBytes 2 0 else []).length ≤ 2 := by
    split_ifs
    · exact (length_beBytes 2 0).le
    · exact Nat.zero_le 2
  refine if_neg ?_
  simp only [bytes, Bool.false_eq_true, if_false, List.nil_append, List.append_nil,
    List.length_append, List.length_singleton, length_beBytes]
  omega

/-- **A world that can be read is read back as it was written.** -/
theorem deserialize_bytes {w : World} (h : w.WellFormed) : deserialize (w.bytes false) = .ok w := by
  have hread := readsBack h [] []
  rw [List.nil_append, List.append_nil] at hread
  unfold deserialize
  rw [show read (w.bytes false) 0 = _ from hread]
  rfl

end World

end ZGalaxy
