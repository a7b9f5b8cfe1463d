/-
ZGalaxy/Address.lean

ZeroTier addresses: 40-bit node identifiers, written as five big-endian bytes.

The null address is `0`; it and every address whose first byte is `0xff` are
reserved (`isReserved`), and an identity never has a reserved address.  The
reserved prefix doubles as the fragment indicator of the packet format, which
stands where a packet head has the first byte of its source address.

The high 40 bits of a network id are the address of the network's controller
(`controllerFor`).
-/
import ZGalaxy.Bytes
import Mathlib.Tactic.NormNum

namespace ZGalaxy

open ByteList

/-- `ZT_ADDRESS_LENGTH`. -/
def addressLength : ℕ := 5

/-- `ZT_ADDRESS_RESERVED_PREFIX`. -/
def addressReservedPrefix : UInt8 := 0xff

/-- A ZeroTier address. -/
abbrev Address := BitVec 40

/-- A ZeroTier network id. -/
abbrev NetworkId := BitVec 64

namespace Address

/-- `Address(uint64_t)`: the low 40 bits. -/
def ofUInt64 (a : BitVec 64) : Address := a.setWidth 40

/-- `Address(bits, len)`: five big-endian bytes; the null address when there are
fewer. -/
def ofBytes (bits : Bytes) : Address :=
  if bits.length < addressLength then 0 else BitVec.ofNat 40 (beNat (bits.take addressLength))

/-- `copyTo`: the address as five big-endian bytes. -/
def toBytes (a : Address) : Bytes := beBytes addressLength a.toNat

/-- `operator bool`: the address is not null. -/
def isSet (a : Address) : Bool := a != 0

/-- `isReserved`: null, or beginning with the reserved prefix. -/
def isReserved (a : Address) : Bool :=
  a == 0 || a >>> 32 == (addressReservedPrefix.toBitVec.setWidth 40)

/-- `Network::controllerFor`. -/
def controllerFor (nwid : NetworkId) : Address := ofUInt64 (nwid >>> 24)

@[simp] theorem length_toBytes (a : Address) : (toBytes a).length = addressLength :=
  length_beBytes _ _

/-- An address read back from the bytes it was written to is the same address. -/
@[simp] theorem ofBytes_toBytes (a : Address) : ofBytes (toBytes a) = a := by
  have hlt : a.toNat < 256 ^ addressLength := by
    have := a.isLt
    norm_num [addressLength] at this ⊢
    exact this
  rw [ofBytes, if_neg (by rw [length_toBytes]; omega), List.take_of_length_le (by simp), toBytes,
    beNat_beBytes, Nat.mod_eq_of_lt hlt, BitVec.ofNat_toNat, BitVec.setWidth_eq]

/-- The address a five-byte field holds is written back as that field. -/
theorem toBytes_ofBytes {bits : Bytes} (h : bits.length = addressLength) :
    toBytes (ofBytes bits) = bits := by
  have hlt : beNat bits < 2 ^ 40 := by
    have := beNat_lt bits
    rw [h] at this
    norm_num [addressLength] at this ⊢
    exact this
  rw [ofBytes, if_neg (by omega), List.take_of_length_le (by omega), toBytes, BitVec.toNat_ofNat,
    Nat.mod_eq_of_lt hlt, ← h, beBytes_beNat]

/-- The reserved prefix of an address is its first byte. -/
theorem isReserved_of_head {bits : Bytes} (h : bits.length = addressLength)
    (hb : byteAt bits 0 = addressReservedPrefix) : isReserved (ofBytes bits) = true := by
  obtain ⟨b₀, b₁, b₂, b₃, b₄, rfl⟩ : ∃ b₀ b₁ b₂ b₃ b₄, bits = [b₀, b₁, b₂, b₃, b₄] := by
    match bits, h with
    | [b₀, b₁, b₂, b₃, b₄], _ => exact ⟨b₀, b₁, b₂, b₃, b₄, rfl⟩
  have hb₀ : b₀ = 0xff := hb
  subst hb₀
  have h₁ := b₁.toNat_lt
  have h₂ := b₂.toNat_lt
  have h₃ := b₃.toNat_lt
  have h₄ := b₄.toNat_lt
  have hv : beNat [0xff, b₁, b₂, b₃, b₄]
      = ((((0xff * 256 + b₁.toNat) * 256 + b₂.toNat) * 256 + b₃.toNat) * 256 + b₄.toNat) := rfl
  have hshift : (ofBytes [0xff, b₁, b₂, b₃, b₄] >>> 32 : Address)
      = addressReservedPrefix.toBitVec.setWidth 40 := by
    apply BitVec.eq_of_toNat_eq
    rw [ofBytes, if_neg (by simp [addressLength]),
      List.take_of_length_le (by simp [addressLength]), hv,
      BitVec.toNat_ushiftRight, BitVec.toNat_ofNat, Nat.shiftRight_eq_div_pow]
    have hp : (addressReservedPrefix.toBitVec.setWidth 40).toNat = 255 := rfl
    rw [hp]
    omega
  rw [isReserved, hshift]
  simp

end Address

end ZGalaxy
