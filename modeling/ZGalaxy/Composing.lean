/-
ZGalaxy/Composing.lean

Composing a packet.

A packet that is sent starts from its header and is appended to field by field, each time with a
look at the capacity of its buffer.  A buffer that is used again gets a new packet id and keeps the
MAC of the packet before, which nothing reads before a new one is put there.

Main result: `composed_arrives`, that what was appended to the header arrives, compressed or not.
-/
import ZGalaxy.Retry

namespace ZGalaxy

open ByteList

namespace Packet

/-- `Buffer::append`, in a packet. -/
def append (p v : Bytes) : Except ZTException Bytes :=
  if protoMaxPacketLength < p.length + v.length then .error .outOfBounds else .ok (p ++ v)

/-- `Packet::reset`, with a random packet id and the MAC that is left in the buffer. -/
def reset (iv mac : BitVec 64) (dest source : Address) (v : UInt8) : Bytes :=
  beBytes 8 iv.toNat ++ (dest.toBytes ++ (source.toBytes ++ (0 :: (beBytes 8 mac.toNat ++ [v]))))

theorem append_of_le {p v : Bytes} (h : p.length + v.length ≤ protoMaxPacketLength) :
    append p v = .ok (p ++ v) := if_neg (not_lt.mpr h)

variable (iv mac : BitVec 64) (dest source : Address) (v : UInt8)

@[simp] theorem length_reset : (reset iv mac dest source v).length = protoMinPacketLength := by
  unfold reset
  simp only [List.length_append, List.length_cons, length_beBytes, Address.length_toBytes]
  rfl

theorem byteAt_reset (payload : Bytes) :
    byteAt (reset iv mac dest source v ++ payload) idxVerb = v := by
  have hsplit : reset iv mac dest source v ++ payload = (beBytes 8 iv.toNat ++ (dest.toBytes ++
      (source.toBytes ++ (0 :: beBytes 8 mac.toNat)))) ++ ([v] ++ payload) := by
    simp [reset]
  have hlength : (beBytes 8 iv.toNat ++ (dest.toBytes ++
      (source.toBytes ++ (0 :: beBytes 8 mac.toNat)))).length = idxVerb := by
    simp only [List.length_append, List.length_cons, length_beBytes, Address.length_toBytes]
    rfl
  have hbyte := Buffer.byte_at hsplit hlength
  unfold Buffer.byte at hbyte
  split_ifs at hbyte
  exact Except.ok.inj hbyte

theorem drop_reset (payload : Bytes) :
    (reset iv mac dest source v ++ payload).drop idxPayload = payload :=
  List.drop_left' (length_reset iv mac dest source v)

end Packet

/-- **What is composed arrives**: a packet with the header of `reset` that fits its buffer is no
longer when it is compressed, and whatever shows the verb and the payload of what was sent is
unpacked to a packet with the verb and the payload that were composed. -/
theorem composed_arrives {C : Crypto} (ch : Channel C) (iv mac : BitVec 64) (dest source : Address)
    {v : UInt8} (hv : v &&& Packet.verbFlagCompressed = 0) (payload : Bytes)
    (hfits : protoMinPacketLength + payload.length ≤ protoMaxPacketLength) :
    let q := Packet.compress ch.lz4Compress (Packet.reset iv mac dest source v ++ payload)
    q.length ≤ protoMaxPacketLength ∧ ∀ r, Packet.Same q r →
      ∃ d, Packet.uncompress ch.lz4Decompress r = some d ∧ Packet.verb d = v &&& 0x1f ∧
        d.drop Packet.idxPayload = payload := by
  have hlength : (Packet.reset iv mac dest source v ++ payload).length =
      protoMinPacketLength + payload.length := by
    rw [List.length_append, Packet.length_reset]
  have hwhole : protoMinPacketLength ≤ (Packet.reset iv mac dest source v ++ payload).length := by
    rw [hlength]
    exact Nat.le_add_right _ _
  have hunmarked : Packet.compressed (Packet.reset iv mac dest source v ++ payload) = false := by
    rw [Packet.compressed, Packet.byteAt_reset, hv]
    rfl
  have hpacks : Packs ch _ (Packet.compress ch.lz4Compress _) := packs_compress hwhole hunmarked
  refine ⟨?_, fun r hr => ?_⟩
  · refine le_trans ?_ (hlength ▸ hfits)
    generalize hq : Packet.compress ch.lz4Compress _ = q at hpacks ⊢
    cases hpacks with
    | whole => exact le_rfl
    | compressed hpos hlt =>
        rw [Packet.length_packedWith hwhole]
        rw [List.length_drop] at hlt
        have hidx : Packet.idxPayload = protoMinPacketLength := rfl
        omega
  · obtain ⟨d, hd, hverb, hpayload⟩ :=
      hpacks.uncompress_of_whole hwhole hunmarked (hlength ▸ hfits) hr
    refine ⟨d, hd, hverb.trans ?_, hpayload.trans (Packet.drop_reset ..)⟩
    rw [Packet.verb, Packet.byteAt_reset]

end ZGalaxy
