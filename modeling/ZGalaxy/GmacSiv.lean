/-
ZGalaxy/GmacSiv.lean

AES-GMAC-SIV, the authenticated cipher of packets between new nodes, over the software AES.

The encryptor sees the plaintext twice.  The first pass computes GMAC of the associated data and the
plaintext, of which 64 bits are kept; together with the initialization vector they are encrypted to the
128 bits of the tag, and the tag without one bit is the counter block of the second pass.  The decryptor
needs one pass only: the tag gives the counter block, and deciphered it gives the initialization vector
and the 64 bits that GMAC of its own output has to agree with.  How much of that output there is it
counts in 32 bits.

Main results: `encrypt_eq` and `decrypt_eq`, encryptor and decryptor compute the cipher (`encipher`,
`decipher`), however the data is cut into pieces; and `decrypt_accepts`, the decryptor accepts exactly
what the encryptor makes of some initialization vector and the plaintext that the decryptor puts out.
They are about messages of fewer than `2 ^ 32` bytes.
-/
import ZGalaxy.AesCtr
import ZGalaxy.Gmac

namespace ZGalaxy

open ByteList

namespace GmacSiv

/-! ### The code of the source -/

/-- The AES instances keyed with `k0` and `k1`. -/
structure Keys where
  k0 : Bytes
  k1 : Bytes
  length_k0 : k0.length = 32
  length_k1 : k1.length = 32

/-- `tmp[0] ^ tmp[1]`. -/
def shorten (tmp : Bytes) : Bytes := xorStream (byteAt (slice tmp 8 8)) (slice tmp 0 8)

/-- The mask of `tmp[1]`: the first bit of the counter is cleared. -/
def clearTop (tag : Bytes) : Bytes := setByte tag 12 (byteAt tag 12 &&& 0x7f)

/-- `aad`, of the encryptor and of the decryptor: the associated data, filled up with zeros. -/
def aad (K : Keys) (gmac : Gmac.State) (data : Bytes) : Gmac.State :=
  let gmac := Gmac.update K.k0 gmac data
  if data.length % 16 ≠ 0 then
    Gmac.update K.k0 gmac (List.replicate (16 - data.length % 16) 0)
  else gmac

/-- `GMACSIVEncryptor`. -/
structure Encryptor where
  tag : Bytes
  gmac : Gmac.State
  ctr : Aes.Ctr

namespace Encryptor

/-- `GMACSIVEncryptor::init`. -/
def init (enc : Encryptor) (iv : Bytes) : Encryptor :=
  let tag := iv ++ List.replicate 8 0
  { enc with tag := tag, gmac := Gmac.init enc.gmac (slice tag 0 12) }

/-- `GMACSIVEncryptor::update1`. -/
def update1 (K : Keys) (enc : Encryptor) (input : Bytes) : Encryptor :=
  { enc with gmac := Gmac.update K.k0 enc.gmac input }

/-- `GMACSIVEncryptor::finish1`. -/
def finish1 (K : Keys) (enc : Encryptor) : Encryptor :=
  let tmp := Gmac.finish K.k0 enc.gmac
  let tag := Aes.encryptSW K.k1 (slice enc.tag 0 8 ++ shorten tmp)
  { enc with tag := tag, ctr := .init (clearTop tag) }

/-- `GMACSIVEncryptor::update2`. -/
def update2 (K : Keys) (enc : Encryptor) (input : Bool × Bytes) : Encryptor :=
  { enc with ctr := enc.ctr.crypt input.1 K.k1 input.2 }

/-- `GMACSIVEncryptor::finish2`, and the output. -/
def finish2 (K : Keys) (enc : Encryptor) : Bytes × Bytes := (enc.tag, enc.ctr.finish K.k1)

/-- A message through the encryptor: the plaintext in pieces twice, the second time with whether they
are aligned. -/
def encrypt (K : Keys) (enc : Encryptor) (iv data : Bytes) (pieces1 : List Bytes)
    (pieces2 : List (Bool × Bytes)) : Bytes × Bytes :=
  let enc := enc.init iv
  let enc := { enc with gmac := aad K enc.gmac data }
  let enc := (pieces1.foldl (update1 K) enc).finish1 K
  (pieces2.foldl (update2 K) enc).finish2 K

end Encryptor

/-- `GMACSIVDecryptor`; its output is the one of `ctr`. -/
structure Decryptor where
  ivMac : Bytes
  gmac : Gmac.State
  ctr : Aes.Ctr
  decryptedLen : BitVec 32

namespace Decryptor

/-- `GMACSIVDecryptor::init`. -/
def init (K : Keys) (dec : Decryptor) (tag : Bytes) : Decryptor :=
  let ivMac := Aes.decryptSW K.k1 tag
  { ivMac := ivMac, ctr := .init (clearTop tag),
    gmac := Gmac.init dec.gmac (slice (slice ivMac 0 8 ++ List.replicate 8 0) 0 12),
    decryptedLen := 0 }

/-- `GMACSIVDecryptor::update`. -/
def update (K : Keys) (dec : Decryptor) (input : Bool × Bytes) : Decryptor :=
  { dec with
    ctr := dec.ctr.crypt input.1 K.k1 input.2
    decryptedLen := dec.decryptedLen + BitVec.ofNat 32 input.2.length }

/-- `GMACSIVDecryptor::finish`, and the output. -/
def finish (K : Keys) (dec : Decryptor) : Bool × Bytes :=
  let output := dec.ctr.finish K.k1
  let gmac := Gmac.update K.k0 dec.gmac (output.take dec.decryptedLen.toNat)
  let gmacTag := Gmac.finish K.k0 gmac
  (shorten gmacTag == slice dec.ivMac 8 8, output)

/-- A message through the decryptor: the ciphertext in pieces. -/
def decrypt (K : Keys) (dec : Decryptor) (tag data : Bytes) (pieces : List (Bool × Bytes)) :
    Bool × Bytes :=
  let dec := dec.init K tag
  let dec := { dec with gmac := aad K dec.gmac data }
  (pieces.foldl (update K) dec).finish K

end Decryptor

/-! ### The cipher -/

/-- The 64 bits of GMAC that go into the tag. -/
def mac (K : Keys) (iv data m : Bytes) : Bytes :=
  let authenticated := Gmac.padded data ++ m
  shorten (Gmac.tagOf (authenticated.length % 2 ^ 32) K.k0 (iv ++ [0, 0, 0, 0]) authenticated)

/-- The keystream that goes with a tag. -/
def stream (K : Keys) (tag : Bytes) : ℕ → UInt8 := Aes.ctrStream K.k1 (clearTop tag)

/-- The tag and the ciphertext of a plaintext. -/
def encipher (K : Keys) (iv data m : Bytes) : Bytes × Bytes :=
  let tag := Aes.encryptSW K.k1 (iv ++ mac K iv data m)
  (tag, xorStream (stream K tag) m)

/-- Whether a tag is that of the plaintext of a ciphertext, and the plaintext. -/
def decipher (K : Keys) (tag data c : Bytes) : Bool × Bytes :=
  let ivMac := Aes.decryptSW K.k1 tag
  let m := xorStream (stream K tag) c
  (mac K (slice ivMac 0 8) data m == slice ivMac 8 8, m)

variable (K : Keys) {iv data : Bytes}

/-- The associated data is filled up to whole blocks. -/
theorem fed_aad {st : Gmac.State} (h : Gmac.Fed K.k0 iv [] st) (data : Bytes) :
    Gmac.Fed K.k0 iv (Gmac.padded data) (aad K st data) := by
  have hdata := h.update data
  rw [List.nil_append] at hdata
  rw [aad, Gmac.padded]
  split_ifs with hmod
  · have hzeros : (16 - data.length % 16) % 16 = 16 - data.length % 16 := by omega
    rw [hzeros]
    exact hdata.update _
  · have hzero : (16 - data.length % 16) % 16 = 0 := by omega
    rw [hzero, List.replicate_zero, List.append_nil]
    exact hdata

theorem length_tagOf (n : ℕ) (key iv m : Bytes) : (Gmac.tagOf n key iv m).length = 16 :=
  Gmac.length_blockBytes _

theorem length_mac (iv data m : Bytes) : (mac K iv data m).length = 8 := by
  rw [mac, shorten, length_xorStream]
  exact length_slice (by rw [length_tagOf]; decide)

theorem length_clearTop {tag : Bytes} (h : tag.length = 16) : (clearTop tag).length = 16 :=
  (length_setByte (by omega)).trans h

/-- GMAC over the associated data and what follows it. -/
theorem shorten_finish {st : Gmac.State} (hr : st.r.length = 16) (hiv : iv.length = 8) (data : Bytes)
    (pieces : List Bytes) :
    shorten (Gmac.finish K.k0 (pieces.foldl (Gmac.update K.k0)
        (aad K (Gmac.init st (iv ++ [0, 0, 0, 0])) data)))
      = mac K iv data pieces.flatten := by
  have hfed := (fed_aad K (Gmac.Fed.init K.k0 (iv ++ [0, 0, 0, 0]) hr) data).pieces pieces
  rw [hfed.finish (by rw [List.length_append, hiv]; rfl), mac]

theorem foldl_update1 (enc : Encryptor) (pieces : List Bytes) :
    pieces.foldl (Encryptor.update1 K) enc
      = { enc with gmac := pieces.foldl (Gmac.update K.k0) enc.gmac } := by
  induction pieces generalizing enc with
  | nil => rfl
  | cons m pieces ih => exact ih _

theorem foldl_update2 (enc : Encryptor) (pieces : List (Bool × Bytes)) :
    pieces.foldl (Encryptor.update2 K) enc
      = { enc with ctr := pieces.foldl (fun s p => s.crypt p.1 K.k1 p.2) enc.ctr } := by
  induction pieces generalizing enc with
  | nil => rfl
  | cons m pieces ih => exact ih _

theorem foldl_update (dec : Decryptor) (pieces : List (Bool × Bytes)) :
    pieces.foldl (Decryptor.update K) dec
      = { dec with
          ctr := pieces.foldl (fun s p => s.crypt p.1 K.k1 p.2) dec.ctr
          decryptedLen :=
            dec.decryptedLen + BitVec.ofNat 32 (pieces.map Prod.snd).flatten.length } := by
  induction pieces generalizing dec with
  | nil => simp
  | cons m pieces ih =>
      rw [List.foldl_cons, ih, List.map_cons, List.flatten_cons, List.length_append,
        BitVec.ofNat_add, ← BitVec.add_assoc]
      rfl

/-- The first twelve bytes of an initialization vector of eight and zeros. -/
theorem slice_iv (hiv : iv.length = 8) :
    slice (iv ++ List.replicate 8 0) 0 12 = iv ++ [0, 0, 0, 0] := by
  have hsplit : iv ++ List.replicate 8 0 = (iv ++ [0, 0, 0, 0]) ++ List.replicate 4 0 := by
    rw [List.append_assoc]
    rfl
  rw [hsplit, slice, List.drop_zero, List.take_left' (by rw [List.length_append, hiv]; rfl)]

/-- **The encryptor computes the cipher**, however the plaintext is cut into pieces in its two
passes. -/
theorem encrypt_eq {enc : Encryptor} (hr : enc.gmac.r.length = 16) (hiv : iv.length = 8)
    (data : Bytes) {pieces1 : List Bytes} {pieces2 : List (Bool × Bytes)}
    (h : pieces1.flatten = (pieces2.map Prod.snd).flatten)
    (hroom : pieces1.flatten.length < 2 ^ 32) :
    enc.encrypt K iv data pieces1 pieces2 = encipher K iv data pieces1.flatten := by
  have hhead : slice (iv ++ List.replicate 8 0) 0 8 = iv := by
    rw [slice, List.drop_zero, List.take_left' hiv]
  rw [Encryptor.encrypt, foldl_update2, foldl_update1]
  simp only [Encryptor.init, Encryptor.finish1, Encryptor.finish2, slice_iv hiv, hhead,
    shorten_finish K hr hiv]
  rw [h] at hroom
  rw [Aes.ctr_stream _ (length_clearTop (Aes.length_encryptSW _ _)) hroom, ← h]
  rfl

/-- **The decryptor inverts it**, likewise. -/
theorem decrypt_eq {dec : Decryptor} (hr : dec.gmac.r.length = 16) {tag : Bytes}
    (htag : tag.length = 16) (data : Bytes) {pieces : List (Bool × Bytes)}
    (hroom : (pieces.map Prod.snd).flatten.length < 2 ^ 32) :
    dec.decrypt K tag data pieces = decipher K tag data (pieces.map Prod.snd).flatten := by
  have hlen : (Aes.decryptSW K.k1 tag).length = 16 := Aes.length_storeBlock _
  have hiv : (slice (Aes.decryptSW K.k1 tag) 0 8).length = 8 := length_slice (by omega)
  have hmac := shorten_finish K hr hiv data
    [xorStream (Aes.ctrStream K.k1 (clearTop tag)) (pieces.map Prod.snd).flatten]
  rw [List.foldl_cons, List.foldl_nil, List.flatten_singleton] at hmac
  -- all of the output is counted
  have hcount : (0 + BitVec.ofNat 32 (pieces.map Prod.snd).flatten.length).toNat
      = (pieces.map Prod.snd).flatten.length := by
    rw [show (0 : BitVec 32) = 0#32 from rfl, BitVec.zero_add, BitVec.toNat_ofNat,
      Nat.mod_eq_of_lt hroom]
  rw [Decryptor.decrypt, foldl_update]
  simp only [Decryptor.init, Decryptor.finish, slice_iv hiv, hcount]
  rw [Aes.ctr_stream _ (length_clearTop htag) hroom,
    List.take_of_length_le (length_xorStream _ _).le, hmac]
  rfl

/-! ### Deciphering -/

theorem length_encipher_tag (iv data m : Bytes) : (encipher K iv data m).1.length = 16 :=
  Aes.length_encryptSW _ _

theorem length_encipher (iv data m : Bytes) : (encipher K iv data m).2.length = m.length :=
  length_xorStream _ _

theorem length_decipher (tag data c : Bytes) : (decipher K tag data c).2.length = c.length :=
  length_xorStream _ _

/-- The two halves of a block. -/
theorem slice_halves {b : Bytes} (hb : b.length = 16) : slice b 0 8 ++ slice b 8 8 = b := by
  rw [slice_append_slice]
  exact List.take_of_length_le (by rw [List.drop_zero, hb])

/-- **What is accepted was enciphered**, and the other way around: the decryptor puts out `m` as
authentic if and only if the tag and the ciphertext are those of `m` for some initialization
vector. -/
theorem decipher_eq_iff {tag : Bytes} (htag : tag.length = 16) (data c m : Bytes) :
    decipher K tag data c = (true, m)
      ↔ ∃ iv, iv.length = 8 ∧ encipher K iv data m = (tag, c) := by
  have hlen : (Aes.decryptSW K.k1 tag).length = 16 := Aes.length_storeBlock _
  constructor
  · intro h
    rw [decipher, Prod.mk.injEq, beq_iff_eq] at h
    obtain ⟨hmac, hm⟩ := h
    refine ⟨slice (Aes.decryptSW K.k1 tag) 0 8, length_slice (by omega), ?_⟩
    have hblock : slice (Aes.decryptSW K.k1 tag) 0 8
        ++ mac K (slice (Aes.decryptSW K.k1 tag) 0 8) data m = Aes.decryptSW K.k1 tag := by
      rw [← hm, hmac, slice_halves hlen]
    rw [encipher, hblock, (Aes.aes_undo K.length_k1 htag).2, ← hm, xorStream_xorStream]
  · rintro ⟨iv, hiv, h⟩
    rw [encipher, Prod.mk.injEq] at h
    obtain ⟨rfl, rfl⟩ := h
    have hblock : (iv ++ mac K iv data m).length = 16 := by
      rw [List.length_append, hiv, length_mac]
    have hfront : slice (iv ++ mac K iv data m) 0 8 = iv := by
      rw [slice, List.drop_zero, List.take_left' hiv]
    have hback : slice (iv ++ mac K iv data m) 8 8 = mac K iv data m := by
      rw [slice, List.drop_left' hiv, List.take_of_length_le (length_mac K iv data m).le]
    rw [decipher, (Aes.aes_undo K.length_k1 hblock).1]
    simp only [xorStream_xorStream, hfront, hback, beq_self_eq_true]

/-- **The decryptor accepts exactly what the encryptor puts out**: a tag and a ciphertext in pieces are
accepted with some plaintext if and only if the encryptor makes them of that plaintext, with the same
associated data and some initialization vector. -/
theorem decrypt_accepts {enc : Encryptor} {dec : Decryptor} (henc : enc.gmac.r.length = 16)
    (hdec : dec.gmac.r.length = 16) {tag : Bytes} (htag : tag.length = 16) (data : Bytes)
    {pieces : List (Bool × Bytes)} (hroom : (pieces.map Prod.snd).flatten.length < 2 ^ 32)
    {pieces1 : List Bytes} {pieces2 : List (Bool × Bytes)}
    (h : pieces1.flatten = (pieces2.map Prod.snd).flatten)
    (hroom1 : pieces1.flatten.length < 2 ^ 32) :
    dec.decrypt K tag data pieces = (true, pieces1.flatten)
      ↔ ∃ iv, iv.length = 8 ∧
        enc.encrypt K iv data pieces1 pieces2 = (tag, (pieces.map Prod.snd).flatten) := by
  rw [decrypt_eq K hdec htag data hroom, decipher_eq_iff K htag]
  refine exists_congr fun iv => and_congr_right fun hiv => ?_
  rw [encrypt_eq K henc hiv data h hroom1]

/-- Objects that were used before, and keys that are all zero. -/
def usedGmac : Gmac.State := ⟨3, 40, List.replicate 16 1, List.replicate 16 2, List.replicate 16 5⟩

def usedEncryptor : Encryptor := ⟨List.replicate 16 9, usedGmac, ⟨List.replicate 16 7, [1, 2], 2⟩⟩

def usedDecryptor : Decryptor :=
  ⟨List.replicate 16 9, usedGmac, ⟨List.replicate 16 7, [1, 2], 2⟩, 2⟩

def zeroKeys : Keys := ⟨List.replicate 32 0, List.replicate 32 0, rfl, rfl⟩

/-- What the encryptor makes of three bytes. -/
def sentThree : Bytes × Bytes :=
  usedEncryptor.encrypt zeroKeys (List.replicate 8 4) [1, 2] [[1, 2], [3]] [(true, [1, 2, 3])]

/-- Three bytes in two pieces, of which the ciphertext is accepted in two others. -/
theorem decrypt_accepts_three : usedDecryptor.decrypt zeroKeys sentThree.1 [1, 2]
      [(false, sentThree.2.take 1), (true, sentThree.2.drop 1)] = (true, [1, 2, 3]) := by
  have henc : usedEncryptor.gmac.r.length = 16 := rfl
  have hplain : [[(1 : UInt8), 2], [3]].flatten
      = ([(true, [(1 : UInt8), 2, 3])].map Prod.snd).flatten := rfl
  have hsent : sentThree = encipher zeroKeys (List.replicate 8 4) [1, 2] [1, 2, 3] :=
    encrypt_eq zeroKeys henc rfl [1, 2] hplain (by decide)
  have htag : sentThree.1.length = 16 := by
    rw [hsent]
    exact length_encipher_tag _ _ _ _
  have hpieces : ([(false, sentThree.2.take 1), (true, sentThree.2.drop 1)].map Prod.snd).flatten
      = sentThree.2 := by
    show sentThree.2.take 1 ++ (sentThree.2.drop 1 ++ []) = sentThree.2
    rw [List.append_nil, List.take_append_drop]
  have hroom : sentThree.2.length < 2 ^ 32 := by
    rw [hsent, length_encipher]
    decide
  refine (decrypt_accepts zeroKeys henc rfl htag [1, 2] (by rwa [hpieces]) hplain
    (by decide)).mpr ⟨List.replicate 8 4, rfl, ?_⟩
  rw [hpieces]
  rfl

end GmacSiv

end ZGalaxy
