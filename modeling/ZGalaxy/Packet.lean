/-
ZGalaxy/Packet.lean

The packet format: heads, fragments and the accessors of both.

A packet is its bytes.  Its header holds the packet id (which is also the
initialization vector), the destination and source addresses, one byte of flags
laid out `FFCCCHHH` (extended armor, fragmented; cipher suite; hops) and the MAC;
the encrypted part begins with the verb.  A fragment repeats the packet id and
destination of its packet, then has the reserved address prefix where a head has
the first byte of its source address, the fragment number and total in the two
halves of a byte, and a hop count.

Reading a field of a buffer too short for it throws in the source.  Every use
below is on a datagram or packet whose length was checked first, so the accessors
are total here.
-/
import ZGalaxy.Address

namespace ZGalaxy

open ByteList

/-! ### Protocol constants -/

/-- `ZT_DEFAULT_PHYSMTU`. -/
def defaultPhysMtu : ℕ := 1432

/-- `ZT_MAX_PACKET_FRAGMENTS`. -/
def maxPacketFragments : ℕ := 7

/-- `ZT_PROTO_MAX_PACKET_LENGTH`: also the capacity of a packet or fragment buffer. -/
def protoMaxPacketLength : ℕ := maxPacketFragments * defaultPhysMtu

/-- `ZT_PROTO_MIN_PACKET_LENGTH`. -/
def protoMinPacketLength : ℕ := 28

/-- `ZT_PROTO_MIN_FRAGMENT_LENGTH`. -/
def protoMinFragmentLength : ℕ := 16

/-- `ZT_RELAY_MAX_HOPS`. -/
def relayMaxHops : ℕ := 3

/-- `ZT_PROTO_MAX_HOPS`. -/
def protoMaxHops : UInt8 := 7

/-- `ZT_PROTO_FLAG_EXTENDED_ARMOR`. -/
def flagExtendedArmor : UInt8 := 0x80

/-- `ZT_PROTO_FLAG_FRAGMENTED`. -/
def flagFragmented : UInt8 := 0x40

/-- `ZT_PROTO_CIPHER_SUITE__C25519_POLY1305_NONE`. -/
def cipherPoly1305None : UInt8 := 0

/-- `ZT_PROTO_CIPHER_SUITE__C25519_POLY1305_SALSA2012`. -/
def cipherPoly1305Salsa2012 : UInt8 := 1

/-- `ZT_PROTO_CIPHER_SUITE__NO_CRYPTO_TRUSTED_PATH`. -/
def cipherNoCryptoTrustedPath : UInt8 := 2

/-- `ZT_PROTO_CIPHER_SUITE__AES_GMAC_SIV`. -/
def cipherAesGmacSiv : UInt8 := 3

/-- `ZT_PACKET_IDX_IV`. -/
def idxIv : ℕ := 0

/-- `ZT_PACKET_IDX_DEST`. -/
def idxDest : ℕ := 8

/-- `ZT_PACKET_IDX_SOURCE`. -/
def idxSource : ℕ := 13

/-- `ZT_PACKET_IDX_FLAGS`. -/
def idxFlags : ℕ := 18

/-- `ZT_PACKET_IDX_MAC`. -/
def idxMac : ℕ := 19

/-- `ZT_PACKET_IDX_VERB`. -/
def idxVerb : ℕ := 27

/-- `ZT_PACKET_IDX_EXTENDED_ARMOR_START`. -/
def idxExtendedArmorStart : ℕ := idxMac

/-- `ZT_PACKET_FRAGMENT_IDX_FRAGMENT_INDICATOR`. -/
def idxFragmentIndicator : ℕ := 13

/-- `ZT_PACKET_FRAGMENT_IDX_FRAGMENT_NO`. -/
def idxFragmentNo : ℕ := 14

/-- `ZT_PACKET_FRAGMENT_IDX_HOPS`. -/
def idxFragmentHops : ℕ := 15

/-- `ZT_ECC_SIGNATURE_LEN`. -/
def eccSignatureLen : ℕ := 96

/-- `ZT_EXCEPTION_OUT_OF_BOUNDS` and its siblings. -/
inductive ZTException
  | outOfBounds
  | outOfMemory
  | privateKeyRequired
  | invalidArgument
  | invalidSerializedData
  deriving DecidableEq, Repr

/-! ### Packets -/

namespace Packet

/-- `packetId`: the initialization vector as an integer. -/
def packetId (p : Bytes) : BitVec 64 := BitVec.ofNat 64 (beNat (slice p idxIv 8))

/-- `destination`. -/
def destination (p : Bytes) : Address := Address.ofBytes (slice p idxDest addressLength)

/-- `source`. -/
def source (p : Bytes) : Address := Address.ofBytes (slice p idxSource addressLength)

/-- The flags byte. -/
def flags (p : Bytes) : UInt8 := byteAt p idxFlags

/-- The packet with another flags byte. -/
def setFlags (p : Bytes) (f : UInt8) : Bytes := setByte p idxFlags f

/-- `fragmented`. -/
def fragmented (p : Bytes) : Bool := (flags p &&& flagFragmented) != 0

/-- `setFragmented`. -/
def setFragmented (p : Bytes) (f : Bool) : Bytes :=
  setFlags p (if f then flags p ||| flagFragmented else flags p &&& ~~~flagFragmented)

/-- `extendedArmor`. -/
def extendedArmor (p : Bytes) : Bool := (flags p &&& flagExtendedArmor) != 0

/-- `setExtendedArmor`. -/
def setExtendedArmor (p : Bytes) (f : Bool) : Bytes :=
  setFlags p (if f then flags p ||| flagExtendedArmor else flags p &&& ~~~flagExtendedArmor)

/-- `hops`. -/
def hops (p : Bytes) : UInt8 := flags p &&& 0x07

/-- `incrementHops`. -/
def incrementHops (p : Bytes) : Bytes :=
  setFlags p ((flags p &&& 0xf8) ||| ((flags p + 1) &&& 0x07))

/-- `cipher`. -/
def cipher (p : Bytes) : UInt8 := (flags p &&& 0x38) >>> 3

/-- `setCipher`. -/
def setCipher (p : Bytes) (c : UInt8) : Bytes :=
  setFlags p ((flags p &&& 0xc7) ||| ((c <<< (3 : UInt8)) &&& 0x38))

/-- `isEncrypted`. -/
def isEncrypted (p : Bytes) : Bool :=
  cipher p == cipherPoly1305Salsa2012 || cipher p == cipherAesGmacSiv

/-- `trustedPathId`: the MAC field as an integer. -/
def trustedPathId (p : Bytes) : BitVec 64 := BitVec.ofNat 64 (beNat (slice p idxMac 8))

/-- `setTrusted`. -/
def setTrusted (p : Bytes) (tpid : BitVec 64) : Bytes :=
  splice (setCipher p cipherNoCryptoTrustedPath) idxMac (beBytes 8 tpid.toNat)

/-- The five bits of the verb, without its flag bits. -/
def verb (p : Bytes) : UInt8 := byteAt p idxVerb &&& 0x1f

/-- `payloadLength`. -/
def payloadLength (p : Bytes) : ℕ :=
  if p.length < protoMinPacketLength then 0 else p.length - protoMinPacketLength

end Packet

/-! ### Fragments -/

namespace Fragment

/-- `Fragment::init`: the fragment numbered `fragNo` of `fragTotal`, holding the
`fragLen` bytes of `p` from `fragStart`. -/
def init (p : Bytes) (fragStart fragLen fragNo fragTotal : ℕ) : Except ZTException Bytes :=
  if p.length < fragStart + fragLen then
    .error .outOfBounds
  else if protoMaxPacketLength < fragLen + protoMinFragmentLength then
    .error .outOfBounds
  else
    -- the first thirteen bytes are the packet id and the destination
    .ok (slice p idxIv 13 ++ [addressReservedPrefix,
      (UInt8.ofNat (fragTotal % 16) <<< 4) ||| UInt8.ofNat (fragNo % 16), 0] ++
      slice p fragStart fragLen)

/-- `packetId`. -/
def packetId (f : Bytes) : BitVec 64 := BitVec.ofNat 64 (beNat (slice f 0 8))

/-- `destination`. -/
def destination (f : Bytes) : Address := Address.ofBytes (slice f 8 addressLength)

/-- `totalFragments`. -/
def totalFragments (f : Bytes) : ℕ := (byteAt f idxFragmentNo).toNat / 16

/-- `fragmentNumber`. -/
def fragmentNumber (f : Bytes) : ℕ := (byteAt f idxFragmentNo).toNat % 16

/-- `hops`. -/
def hops (f : Bytes) : UInt8 := byteAt f idxFragmentHops

/-- `incrementHops`. -/
def incrementHops (f : Bytes) : Bytes :=
  setByte f idxFragmentHops ((byteAt f idxFragmentHops + 1) &&& protoMaxHops)

/-- `payload`, of `payloadLength` bytes: what follows the header. -/
def payload (f : Bytes) : Bytes := f.drop protoMinFragmentLength

end Fragment

/-! ### The flags byte -/

namespace Packet

section Flags

variable {p : Bytes} (h : idxFlags < p.length)
include h

@[simp] theorem length_setFlags (f : UInt8) : (setFlags p f).length = p.length :=
  length_setByte h

@[simp] theorem flags_setFlags (f : UInt8) : flags (setFlags p f) = f :=
  byteAt_setByte_same h

/-- The flags byte is outside every other field. -/
theorem slice_setFlags (f : UInt8) {j n : ℕ} (hd : j + n ≤ idxFlags ∨ idxFlags < j) :
    slice (setFlags p f) j n = slice p j n :=
  slice_setByte_disjoint h hd

theorem setFlags_setFlags (f g : UInt8) : setFlags (setFlags p f) g = setFlags p g :=
  splice_splice_same (Nat.succ_le_of_lt h) rfl

theorem setFlags_flags : setFlags p (flags p) = p :=
  setByte_byteAt_self h

end Flags

/-- A property of the flags byte, checked on its 256 values. -/
theorem forall_byte {P : UInt8 → Prop} (h : ∀ b : BitVec 8, P (UInt8.ofBitVec b)) (b : UInt8) :
    P b := h b.toBitVec

theorem fragmented_setFragmented {p : Bytes} (h : idxFlags < p.length) (f : Bool) :
    fragmented (setFragmented p f) = f := by
  rw [fragmented, setFragmented, flags_setFlags h]
  cases f
  · exact forall_byte (P := fun b => ((b &&& ~~~flagFragmented &&& flagFragmented) != 0) = false)
      (by decide) _
  · exact forall_byte (P := fun b => (((b ||| flagFragmented) &&& flagFragmented) != 0) = true)
      (by decide) _

end Packet

/-! ### The parts of a packet -/

/-- The parts of a packet of at least minimum length: what every operation on
packets changes, it changes in one of these. -/
structure Layout where
  iv : Bytes
  /-- destination and source -/
  addresses : Bytes
  flags : UInt8
  mac : Bytes
  /-- the verb and the payload -/
  body : Bytes
  length_iv : iv.length = 8
  length_addresses : addresses.length = 10
  length_mac : mac.length = 8

namespace Layout

variable (L : Layout)

/-- The packet with these parts. -/
def bytes : Bytes := L.iv ++ (L.addresses ++ ([L.flags] ++ (L.mac ++ L.body)))

/-- The parts with another flags byte. -/
def withFlags (f : UInt8) : Layout := { L with flags := f }

/-- The parts with another body. -/
def withBody (b : Bytes) : Layout := { L with body := b }

/-- The parts with another MAC. -/
def withMac (m : Bytes) (h : m.length = 8) : Layout := { L with mac := m, length_mac := h }

/-- The parts with another initialization vector. -/
def withIv (v : Bytes) (h : v.length = 8) : Layout := { L with iv := v, length_iv := h }

/-- Every packet of at least minimum length has parts. -/
theorem exists_of_length {p : Bytes} (h : protoMinPacketLength ≤ p.length) :
    ∃ L : Layout, p = L.bytes ∧ L.body.length = p.length - idxVerb := by
  have hp : 28 ≤ p.length := h
  refine ⟨⟨slice p 0 8, slice p 8 10, byteAt p 18, slice p 19 8, slice p 27 (p.length - 27),
    length_slice (by omega), length_slice (by omega), length_slice (by omega)⟩, ?_,
    length_slice (by omega)⟩
  have hlast : slice p 27 (p.length - 27) = p.drop 27 :=
    List.take_of_length_le (by rw [List.length_drop])
  simp only [bytes, ← slice_one (show 18 < p.length by omega)]
  rw [← List.append_assoc, slice_append_slice, ← List.append_assoc, slice_append_slice,
    ← List.append_assoc, slice_append_slice, hlast, slice_zero_append]

theorem length_bytes : L.bytes.length = idxVerb + L.body.length := by
  simp only [bytes, List.length_append, L.length_iv, L.length_addresses, L.length_mac,
    List.length_singleton, idxVerb]
  omega

@[simp] theorem slice_iv : slice L.bytes idxIv 8 = L.iv :=
  slice_middle (a := []) rfl L.length_iv

/-- The part of the header that the mangled key covers whole. -/
@[simp] theorem slice_head : slice L.bytes 0 18 = L.iv ++ L.addresses := by
  have h : L.bytes = [] ++ ((L.iv ++ L.addresses) ++ ([L.flags] ++ (L.mac ++ L.body))) := by
    simp [bytes]
  rw [h]
  exact slice_middle rfl (by simp [L.length_iv, L.length_addresses])

@[simp] theorem slice_addresses : slice L.bytes 8 10 = L.addresses :=
  slice_middle L.length_iv L.length_addresses

@[simp] theorem slice_mac : slice L.bytes idxMac 8 = L.mac := by
  have h : L.bytes = (L.iv ++ L.addresses ++ [L.flags]) ++ (L.mac ++ L.body) := by
    simp [bytes]
  rw [h]
  exact slice_middle (by simp [L.length_iv, L.length_addresses, idxMac]) L.length_mac

/-- The part of the header that AES-GMAC-SIV authenticates. -/
@[simp] theorem slice_aad : slice L.bytes idxDest 11 = L.addresses ++ [L.flags] := by
  have h : L.bytes = L.iv ++ ((L.addresses ++ [L.flags]) ++ (L.mac ++ L.body)) := by
    simp [bytes]
  rw [h]
  exact slice_middle L.length_iv (by simp [L.length_addresses])

@[simp] theorem flags_bytes : Packet.flags L.bytes = L.flags := by
  have h : slice L.bytes idxFlags 1 = [L.flags] := by
    have h' : L.bytes = (L.iv ++ L.addresses) ++ ([L.flags] ++ (L.mac ++ L.body)) := by
      simp [bytes]
    rw [h']
    exact slice_middle (by simp [L.length_iv, L.length_addresses, idxFlags]) rfl
  rw [slice_one (by rw [length_bytes]; simp only [idxFlags, idxVerb]; omega)] at h
  exact List.head_eq_of_cons_eq h

@[simp] theorem setFlags_bytes (f : UInt8) :
    Packet.setFlags L.bytes f = (L.withFlags f).bytes := by
  have h : ∀ M : Layout, M.bytes = (M.iv ++ M.addresses) ++ ([M.flags] ++ (M.mac ++ M.body)) := by
    intro M
    simp [bytes]
  rw [h, h]
  exact splice_middle (by simp [L.length_iv, L.length_addresses, idxFlags]) rfl

@[simp] theorem splice_mac (m : Bytes) (hm : m.length = 8) :
    splice L.bytes idxMac m = (L.withMac m hm).bytes := by
  have h : ∀ M : Layout, M.bytes = (M.iv ++ M.addresses ++ [M.flags]) ++ (M.mac ++ M.body) := by
    intro M
    simp [bytes]
  rw [h, h]
  exact splice_middle (by simp [L.length_iv, L.length_addresses, idxMac])
    (by rw [hm, L.length_mac])

@[simp] theorem splice_iv (v : Bytes) (hv : v.length = 8) :
    splice L.bytes idxIv v = (L.withIv v hv).bytes :=
  splice_middle (a := []) rfl (by rw [hv, L.length_iv])

@[simp] theorem splice_body (b : Bytes) (hb : b.length = L.body.length) :
    splice L.bytes idxVerb b = (L.withBody b).bytes := by
  have h : ∀ M : Layout,
      M.bytes = (M.iv ++ M.addresses ++ [M.flags] ++ M.mac) ++ (M.body ++ []) := by
    intro M
    simp [bytes]
  rw [h, h]
  exact splice_middle
    (by simp [L.length_iv, L.length_addresses, L.length_mac, idxVerb]) hb

end Layout

end ZGalaxy
