/-
ZGalaxy/Armor.lean

Armoring packets for transport, and verifying and decrypting them on arrival.

`armor` and `dearmor` follow `Packet::armor` and `Packet::dearmor` branch by
branch.  The primitives are the fields of `Crypto`: keystreams as functions of
the byte position, a MAC, an authenticated cipher with its decryption, and a key
agreement, with the laws the packet code relies on.  Salsa20 is used in two ways
by the source, a single pass (`fast`) and a stateful cipher, and the two ends of
a connection need not be built alike; both are here (`fastSeal`,
`slowSeal` and their inverses) and they are the same functions
(`slowSeal_eq_fastSeal`, `slowOpen_eq_fastOpen`).

A packet in flight is only changed in its hop count, three bits of the flags
byte.  So everything the two functions mix into keys and MACs is a function of
the packet up to those bits: the mangled key masks them (`mangleKey_congr`), and
the authenticated header of AES-GMAC-SIV is taken with them cleared.

Main result: `dearmor_armor`.  The ephemeral wrapper is only unwrapped from a
packet whose payload is not encrypted, which is the only way it is used (for
HELLO), so there the two agree; with an encrypted payload they do not
(`dearmor_armor_extended_encrypted`).
-/
import ZGalaxy.Packet

namespace ZGalaxy

open ByteList

/-! ### Primitives -/

/-- `ZT_ECC_EPHEMERAL_PUBLIC_KEY_LEN`. -/
def eccEphemeralPublicKeyLen : ℕ := 32

/-- The primitives of the packet cipher suites with their laws. -/
structure Crypto where
  /-- the Salsa20/12 keystream of a key and an initialization vector -/
  salsa2012 : Bytes → Bytes → ℕ → UInt8
  /-- Poly1305 of a one-time key and a message -/
  poly1305 : Bytes → Bytes → Bytes
  length_poly1305 : ∀ k m, (poly1305 k m).length = 16
  /-- the pair of AES keys of AES-GMAC-SIV -/
  AesKeys : Type
  /-- tag and ciphertext of an initialization vector, associated data and a plaintext -/
  gmacSivEncrypt : AesKeys → Bytes → Bytes → Bytes → Bytes × Bytes
  length_gmacSivTag : ∀ k iv aad m, (gmacSivEncrypt k iv aad m).1.length = 16
  length_gmacSivEncrypt : ∀ k iv aad m, (gmacSivEncrypt k iv aad m).2.length = m.length
  /-- whether the tag is right, and the plaintext, of a tag, associated data and a ciphertext -/
  gmacSivDecrypt : AesKeys → Bytes → Bytes → Bytes → Bool × Bytes
  gmacSivDecrypt_encrypt : ∀ k iv aad m,
    gmacSivDecrypt k (gmacSivEncrypt k iv aad m).1 aad (gmacSivEncrypt k iv aad m).2 = (true, m)
  /-- the AES-CTR keystream of a key, an initialization vector and a counter -/
  aesCtr : Bytes → Bytes → ℕ → ℕ → UInt8
  PrivateKey : Type
  /-- the key agreement part of a public key -/
  publicKey : PrivateKey → Bytes
  length_publicKey : ∀ s, (publicKey s).length = eccEphemeralPublicKeyLen
  agree : PrivateKey → Bytes → Bytes
  agree_comm : ∀ s t, agree s (publicKey t) = agree t (publicKey s)

namespace Packet

variable (C : Crypto)

/-! ### The mangled key -/

/-- `_salsa20MangleKey`: the shared key with the packet id, both addresses, the
flags without the hop count and the size XORed into it. -/
def mangleKey (key p : Bytes) : Bytes :=
  (List.range 32).map fun i =>
    if i < 18 then byteAt key i ^^^ byteAt p i
    else if i = 18 then byteAt key i ^^^ (flags p &&& 0xf8)
    else if i = 19 then byteAt key i ^^^ UInt8.ofNat (p.length &&& 0xff)
    else if i = 20 then byteAt key i ^^^ UInt8.ofNat ((p.length >>> 8) &&& 0xff)
    else byteAt key i

/-- The mangled key depends on the packet only through what forwarding nodes
leave alone. -/
theorem mangleKey_congr (key : Bytes) {p q : Bytes} (hs : slice p 0 18 = slice q 0 18)
    (hf : flags p &&& 0xf8 = flags q &&& 0xf8) (hl : p.length = q.length) :
    mangleKey key p = mangleKey key q := by
  unfold mangleKey
  refine List.map_congr_left fun i _ => ?_
  rw [hf, hl]
  by_cases hi : i < 18
  · have hb := congrArg (fun b => byteAt b i) hs
    simp only [byteAt_slice _ hi, Nat.zero_add] at hb
    rw [if_pos hi, if_pos hi, hb]
  · rw [if_neg hi, if_neg hi]

/-! ### Salsa20/12 with Poly1305 -/

/-- A stateful Salsa20 cipher: its keystream and the next block of it. -/
structure Salsa20 where
  stream : ℕ → UInt8
  block : ℕ

/-- `Salsa20::crypt12`: each call starts on a fresh 64-byte block. -/
def Salsa20.crypt12 (s : Salsa20) (input : Bytes) : Bytes × Salsa20 :=
  (xorStream (fun i => s.stream (64 * s.block + i)) input,
    { s with block := s.block + (input.length + 63) / 64 })

/-- `ZERO_KEY`. -/
def zeroKey : Bytes := List.replicate 32 0

/-- The size of the encrypted part: the verb and everything after it. -/
def bodyLen (p : Bytes) : ℕ := p.length - idxVerb

/-- The encrypted part. -/
def body (p : Bytes) : Bytes := slice p idxVerb (bodyLen p)

/-- The keystream of a packet under the shared key. -/
def packetStream (key p : Bytes) : ℕ → UInt8 :=
  C.salsa2012 (mangleKey key p) (slice p idxIv 8)

/-- The MAC branch of `armor`, in a single pass over the keystream. -/
def fastSeal (key : Bytes) (encryptPayload : Bool) (p : Bytes) : Bytes :=
  let payloadLen := if encryptPayload then bodyLen p else 0
  let keyStream := packetStream C key p
  let p := splice p idxVerb (xorStream (fun i => keyStream (64 + i)) (slice p idxVerb payloadLen))
  let mac := C.poly1305 ((List.range 32).map keyStream) (body p)
  splice p idxMac (mac.take 8)

/-- The MAC branch of `armor`, with the stateful cipher. -/
def slowSeal (key : Bytes) (encryptPayload : Bool) (p : Bytes) : Bytes :=
  let s20 : Salsa20 := ⟨packetStream C key p, 0⟩
  let (macKey, s20) := s20.crypt12 zeroKey
  let p := if encryptPayload then splice p idxVerb (s20.crypt12 (body p)).1 else p
  let mac := C.poly1305 macKey (body p)
  splice p idxMac (mac.take 8)

/-- The MAC branch of `dearmor`, in a single pass over the keystream. -/
def fastOpen (key : Bytes) (cs : UInt8) (p : Bytes) : Bool × Bytes :=
  let keyStream := packetStream C key p
  let mac := C.poly1305 ((List.range 32).map keyStream) (body p)
  if slice p idxMac 8 ≠ mac.take 8 then
    (false, p)
  else if cs = cipherPoly1305Salsa2012 then
    (true, splice p idxVerb (xorStream (fun i => keyStream (64 + i)) (body p)))
  else
    (true, p)

/-- The MAC branch of `dearmor`, with the stateful cipher. -/
def slowOpen (key : Bytes) (cs : UInt8) (p : Bytes) : Bool × Bytes :=
  let s20 : Salsa20 := ⟨packetStream C key p, 0⟩
  let (macKey, s20) := s20.crypt12 zeroKey
  let mac := C.poly1305 macKey (body p)
  if slice p idxMac 8 ≠ mac.take 8 then
    (false, p)
  else if cs = cipherPoly1305Salsa2012 then
    (true, splice p idxVerb (s20.crypt12 (body p)).1)
  else
    (true, p)

/-! ### AES-GMAC-SIV -/

/-- The AES-GMAC-SIV branch of `armor`: the tag replaces the packet id and the
MAC. -/
def sealGmacSiv (k : C.AesKeys) (p : Bytes) : Bytes :=
  let (tag, ct) := C.gmacSivEncrypt k (slice p idxIv 8) (slice p idxDest 11) (body p)
  splice (splice (splice p idxVerb ct) idxIv (slice tag 0 8)) idxMac (slice tag 8 8)

/-- The AES-GMAC-SIV branch of `dearmor`: the header is authenticated without its
hop count. -/
def openGmacSiv (k : C.AesKeys) (p : Bytes) : Bool × Bytes :=
  let tag := slice p idxIv 8 ++ slice p idxMac 8
  let aad := slice (setFlags p (flags p &&& 0xf8)) idxDest 11
  let (ok, pt) := C.gmacSivDecrypt k tag aad (body p)
  (ok, splice p idxVerb pt)

/-! ### The ephemeral wrapper -/

/-- The part of a packet under the ephemeral key: the MAC and the body. -/
def cryptExtended (secret : Bytes) (len : ℕ) (p : Bytes) : Bytes :=
  splice p idxExtendedArmorStart
    (xorStream (C.aesCtr secret (slice p 0 12) 0) (slice p idxExtendedArmorStart len))

/-- The extended armor of `armor`, with the ephemeral key pair `ephemeral`, for a
recipient with the public key `identity`. -/
def wrapExtended (ephemeral : C.PrivateKey) (identity : Bytes) (p : Bytes) :
    Except ZTException Bytes :=
  let p := cryptExtended C (C.agree ephemeral identity) (p.length - idxExtendedArmorStart) p
  if protoMaxPacketLength < p.length + eccEphemeralPublicKeyLen then
    .error .outOfBounds
  else
    .ok (p ++ C.publicKey ephemeral)

/-- The extended armor of `dearmor`. -/
def unwrapExtended (identity : C.PrivateKey) (p : Bytes) : Bytes :=
  let len := p.length - eccEphemeralPublicKeyLen
  let ephemeralKey := slice p len eccEphemeralPublicKeyLen
  (cryptExtended C (C.agree identity ephemeralKey) (len - idxExtendedArmorStart) p).take len

/-! ### Armoring and dearmoring -/

/-- `armor` before the ephemeral wrapper. -/
def sealBody (fast : Bool) (key : Bytes) (aesKeys : Option C.AesKeys) (encryptPayload : Bool)
    (p : Bytes) : Bytes :=
  match aesKeys, encryptPayload with
  | some k, true => sealGmacSiv C k (setCipher p cipherAesGmacSiv)
  | _, _ =>
      let p := setCipher p (if encryptPayload then cipherPoly1305Salsa2012 else cipherPoly1305None)
      if fast then fastSeal C key encryptPayload p else slowSeal C key encryptPayload p

/-- `Packet::armor`.  `fast` is `ZT_HAS_FAST_CRYPTO`, `identity` the recipient's
public key and `ephemeral` the key pair generated for the extended armor. -/
def armor (fast : Bool) (key : Bytes) (aesKeys : Option C.AesKeys) (ephemeral : C.PrivateKey)
    (identity : Bytes) (encryptPayload extendedArmor : Bool) (p : Bytes) :
    Except ZTException Bytes :=
  let p := sealBody C fast key aesKeys encryptPayload (setExtendedArmor p extendedArmor)
  if extendedArmor then wrapExtended C ephemeral identity p else .ok p

/-- `dearmor` past the ephemeral wrapper. -/
def openBody (fast : Bool) (key : Bytes) (aesKeys : Option C.AesKeys) (cs : UInt8) (p : Bytes) :
    Bool × Bytes :=
  if cs = cipherAesGmacSiv then
    match aesKeys with
    | some k => openGmacSiv C k p
    | none => (false, p)
  else if cs = cipherPoly1305None ∨ cs = cipherPoly1305Salsa2012 then
    if fast then fastOpen C key cs p else slowOpen C key cs p
  else
    (false, p)

/-- `Packet::dearmor`.  `identity` is the receiver's private key. -/
def dearmor (fast : Bool) (key : Bytes) (aesKeys : Option C.AesKeys) (identity : C.PrivateKey)
    (p : Bytes) : Bool × Bytes :=
  let cs := cipher p
  if extendedArmor p = true ∧ cs = cipherPoly1305None then
    if p.length < idxVerb + 1 + eccEphemeralPublicKeyLen then
      (false, p)
    else
      openBody C fast key aesKeys cs (unwrapExtended C identity p)
  else
    openBody C fast key aesKeys cs p

/-! ### The two builds agree -/

theorem crypt12_zeroKey (s : ℕ → UInt8) :
    Salsa20.crypt12 ⟨s, 0⟩ zeroKey = ((List.range 32).map s, ⟨s, 1⟩) := by
  have h : xorStream s zeroKey = (List.range 32).map s := xorStream_replicate_zero s 32
  simp only [Salsa20.crypt12, Nat.mul_zero, Nat.zero_add, h]
  rfl

variable {C}

/-- Armoring does not depend on how Salsa20 was built. -/
theorem slowSeal_eq_fastSeal (key : Bytes) (encryptPayload : Bool) (p : Bytes) :
    slowSeal C key encryptPayload p = fastSeal C key encryptPayload p := by
  cases encryptPayload
  · simp [slowSeal, fastSeal, crypt12_zeroKey, slice, xorStream]
  · simp only [slowSeal, crypt12_zeroKey]
    simp only [fastSeal, Salsa20.crypt12, body, if_true, Nat.mul_one]

/-- Neither does dearmoring. -/
theorem slowOpen_eq_fastOpen (key : Bytes) (cs : UInt8) (p : Bytes) :
    slowOpen C key cs p = fastOpen C key cs p := by
  simp only [slowOpen, crypt12_zeroKey]
  simp only [fastOpen, Salsa20.crypt12, Nat.mul_one]

/-! ### Each cipher suite is undone at the other end -/

@[simp] theorem body_bytes (L : Layout) : body L.bytes = L.body := by
  have h : L.bytes = (L.iv ++ L.addresses ++ [L.flags] ++ L.mac) ++ (L.body ++ []) := by
    simp [Layout.bytes]
  rw [body, bodyLen, L.length_bytes, Nat.add_sub_cancel_left, h]
  exact slice_middle (by simp [L.length_iv, L.length_addresses, L.length_mac, idxVerb]) rfl

theorem packetStream_congr (key : Bytes) {L M : Layout} (hi : L.iv = M.iv)
    (ha : L.addresses = M.addresses) (hf : L.flags &&& 0xf8 = M.flags &&& 0xf8)
    (hb : L.body.length = M.body.length) :
    packetStream C key L.bytes = packetStream C key M.bytes := by
  have hk : mangleKey key L.bytes = mangleKey key M.bytes := by
    refine mangleKey_congr key ?_ ?_ ?_
    · rw [L.slice_head, M.slice_head, hi, ha]
    · rw [L.flags_bytes, M.flags_bytes, hf]
    · rw [L.length_bytes, M.length_bytes, hb]
  rw [packetStream, packetStream, hk, L.slice_iv, M.slice_iv, hi]

/-- What the MAC branch of `armor` puts in place of the body. -/
def sealedBody (ks : ℕ → UInt8) (encryptPayload : Bool) (b : Bytes) : Bytes :=
  if encryptPayload then xorStream (fun i => ks (64 + i)) b else b

theorem length_sealedBody (ks : ℕ → UInt8) (encryptPayload : Bool) (b : Bytes) :
    (sealedBody ks encryptPayload b).length = b.length := by
  cases encryptPayload
  · rfl
  · exact length_xorStream _ _

theorem length_mac (k m : Bytes) : ((C.poly1305 k m).take 8).length = 8 := by
  rw [List.length_take, C.length_poly1305]
  rfl

theorem fastSeal_bytes (key : Bytes) (encryptPayload : Bool) (L : Layout) :
    fastSeal C key encryptPayload L.bytes =
      ((L.withBody (sealedBody (packetStream C key L.bytes) encryptPayload L.body)).withMac
        ((C.poly1305 ((List.range 32).map (packetStream C key L.bytes))
          (sealedBody (packetStream C key L.bytes) encryptPayload L.body)).take 8)
        (length_mac _ _)).bytes := by
  have hsplice : splice L.bytes idxVerb
      (xorStream (fun i => packetStream C key L.bytes (64 + i))
        (slice L.bytes idxVerb (if encryptPayload = true then bodyLen L.bytes else 0)))
      = (L.withBody (sealedBody (packetStream C key L.bytes) encryptPayload L.body)).bytes := by
    cases encryptPayload
    · simp [slice, xorStream, sealedBody, Layout.withBody]
    · have hb : slice L.bytes idxVerb (bodyLen L.bytes) = L.body := body_bytes L
      rw [if_pos rfl, hb]
      exact L.splice_body _ (length_xorStream _ _)
  rw [fastSeal]
  simp only [hsplice, body_bytes]
  exact Layout.splice_mac _ _ (length_mac _ _)

/-- Salsa20/12 with Poly1305: whatever the hop count became, the MAC is accepted
and the body is what it was. -/
theorem fastOpen_fastSeal (key : Bytes) (encryptPayload : Bool) (L : Layout) {f : UInt8}
    (hf : f &&& 0xf8 = L.flags &&& 0xf8) :
    ∃ m hm, fastOpen C key
        (if encryptPayload then cipherPoly1305Salsa2012 else cipherPoly1305None)
        (setFlags (fastSeal C key encryptPayload L.bytes) f)
      = (true, ((L.withMac m hm).withFlags f).bytes) := by
  set ks := packetStream C key L.bytes with hks
  set b := sealedBody ks encryptPayload L.body with hb
  set m := (C.poly1305 ((List.range 32).map ks) b).take 8 with hm
  have hlm : m.length = 8 := length_mac _ _
  refine ⟨m, hlm, ?_⟩
  -- the packet on arrival
  have hq : setFlags (fastSeal C key encryptPayload L.bytes) f
      = (((L.withBody b).withMac m hlm).withFlags f).bytes := by
    rw [fastSeal_bytes, Layout.setFlags_bytes]
  have hstream : packetStream C key (((L.withBody b).withMac m hlm).withFlags f).bytes = ks :=
    packetStream_congr key rfl rfl hf (length_sealedBody _ _ _)
  rw [hq, fastOpen]
  simp only [hstream, body_bytes, Layout.slice_mac]
  rw [if_neg (by simp [Layout.withFlags, Layout.withMac, Layout.withBody, hm])]
  cases encryptPayload
  · rw [if_neg (by decide)]
    rfl
  · rw [if_pos rfl, Layout.splice_body _ _ (length_xorStream _ _)]
    simp [Layout.withFlags, Layout.withMac, Layout.withBody, hb, sealedBody]

theorem sealGmacSiv_bytes (k : C.AesKeys) (L : Layout) :
    sealGmacSiv C k L.bytes =
      (((L.withBody (C.gmacSivEncrypt k L.iv (L.addresses ++ [L.flags]) L.body).2).withIv
        (slice (C.gmacSivEncrypt k L.iv (L.addresses ++ [L.flags]) L.body).1 0 8)
        (length_slice (by rw [C.length_gmacSivTag]; decide))).withMac
        (slice (C.gmacSivEncrypt k L.iv (L.addresses ++ [L.flags]) L.body).1 8 8)
        (length_slice (by rw [C.length_gmacSivTag]))).bytes := by
  rw [sealGmacSiv]
  simp only [Layout.slice_iv, Layout.slice_aad, body_bytes]
  rw [L.splice_body _ (C.length_gmacSivEncrypt _ _ _ _), Layout.splice_iv, Layout.splice_mac]

/-- AES-GMAC-SIV: likewise, for a packet armored with a zero hop count. -/
theorem openGmacSiv_sealGmacSiv (k : C.AesKeys) (L : Layout) {f : UInt8}
    (hf : f &&& 0xf8 = L.flags) :
    ∃ v hv m hm, openGmacSiv C k (setFlags (sealGmacSiv C k L.bytes) f)
      = (true, (((L.withIv v hv).withMac m hm).withFlags f).bytes) := by
  set e := C.gmacSivEncrypt k L.iv (L.addresses ++ [L.flags]) L.body with he
  have hlt : e.1.length = 16 := C.length_gmacSivTag _ _ _ _
  have hle : e.2.length = L.body.length := C.length_gmacSivEncrypt _ _ _ _
  have hv : (slice e.1 0 8).length = 8 := length_slice (by omega)
  have hm : (slice e.1 8 8).length = 8 := length_slice (by omega)
  refine ⟨slice e.1 0 8, hv, slice e.1 8 8, hm, ?_⟩
  -- the packet on arrival
  have hq : setFlags (sealGmacSiv C k L.bytes) f
      = ((((L.withBody e.2).withIv _ hv).withMac _ hm).withFlags f).bytes := by
    rw [sealGmacSiv_bytes, Layout.setFlags_bytes]
  have htag : slice e.1 0 8 ++ slice e.1 8 8 = e.1 := by
    rw [slice_append_slice]
    exact List.take_of_length_le (by rw [List.drop_zero, hlt])
  have hdec : C.gmacSivDecrypt k (slice e.1 0 8 ++ slice e.1 8 8) (L.addresses ++ [f &&& 0xf8])
      e.2 = (true, L.body) := by
    rw [htag, hf]
    exact C.gmacSivDecrypt_encrypt _ _ _ _
  rw [hq, openGmacSiv]
  simp only [Layout.flags_bytes, Layout.setFlags_bytes, Layout.slice_iv, Layout.slice_mac,
    Layout.slice_aad, body_bytes]
  simp only [Layout.withFlags, Layout.withMac, Layout.withIv, Layout.withBody, hdec]
  rw [Layout.splice_body _ _ hle.symm]
  rfl

/-! ### The ephemeral wrapper is undone at the other end -/

theorem length_cryptExtended (secret : Bytes) {len : ℕ} {p : Bytes}
    (h : idxExtendedArmorStart + len ≤ p.length) :
    (cryptExtended C secret len p).length = p.length :=
  length_splice (by rwa [length_xorStream, length_slice h])

/-- The wrapper is a keystream taken from the header before it, so a second pass
undoes the first. -/
theorem cryptExtended_cryptExtended (secret : Bytes) {len : ℕ} {p : Bytes}
    (h : idxExtendedArmorStart + len ≤ p.length) :
    cryptExtended C secret len (cryptExtended C secret len p) = p := by
  set v := xorStream (C.aesCtr secret (slice p 0 12) 0) (slice p idxExtendedArmorStart len)
    with hv
  have hlen : v.length = len := by
    rw [hv, length_xorStream, length_slice h]
  have hfit : idxExtendedArmorStart + v.length ≤ p.length := by
    rwa [hlen]
  have hiv : slice (splice p idxExtendedArmorStart v) 0 12 = slice p 0 12 :=
    slice_splice_disjoint hfit (Or.inl (by decide))
  have hback : xorStream (C.aesCtr secret (slice p 0 12) 0) v
      = slice p idxExtendedArmorStart len := by
    rw [hv, xorStream_xorStream]
  rw [cryptExtended, cryptExtended, ← hv, hiv, slice_splice_same hlen h, hback,
    splice_splice_same hfit (by rw [length_slice h, hlen]), splice_slice_self h]

/-- The flags byte is before the wrapped part. -/
theorem cryptExtended_setFlags (secret : Bytes) {len : ℕ} {p : Bytes} (f : UInt8)
    (h : idxExtendedArmorStart + len ≤ p.length) :
    cryptExtended C secret len (setFlags p f) = setFlags (cryptExtended C secret len p) f := by
  have hp : idxFlags < p.length := by
    simp only [idxExtendedArmorStart, idxMac, idxFlags] at *
    omega
  rw [cryptExtended, cryptExtended, slice_setFlags hp f (Or.inl (by decide)),
    slice_setFlags hp f (Or.inr (by decide))]
  exact splice_comm (Nat.succ_le_of_lt hp) (by rwa [length_xorStream, length_slice h])
    (Or.inl (by simp [idxFlags, idxExtendedArmorStart, idxMac]))

/-- The appended key is after the wrapped part. -/
theorem cryptExtended_append (secret : Bytes) {len : ℕ} {p : Bytes} (e : Bytes)
    (h : idxExtendedArmorStart + len ≤ p.length) :
    cryptExtended C secret len (p ++ e) = cryptExtended C secret len p ++ e := by
  have h12 : 0 + 12 ≤ p.length := by
    simp only [idxExtendedArmorStart, idxMac] at h
    omega
  rw [cryptExtended, cryptExtended, slice_append_left h, slice_append_left h12]
  exact splice_append_left (by rwa [length_xorStream, length_slice h])

/-- Unwrapping a wrapped packet gives back the packet, with the flags it arrived
with. -/
theorem unwrapExtended_wrapExtended (ephemeral identity : C.PrivateKey) {p : Bytes}
    (hlen : protoMinPacketLength ≤ p.length)
    (hroom : p.length + eccEphemeralPublicKeyLen ≤ protoMaxPacketLength) :
    ∃ q, wrapExtended C ephemeral (C.publicKey identity) p = .ok q ∧
      q.length = p.length + eccEphemeralPublicKeyLen ∧ flags q = flags p ∧
      ∀ f, unwrapExtended C identity (setFlags q f) = setFlags p f := by
  have hp : 28 ≤ p.length := hlen
  have hfit : idxExtendedArmorStart + (p.length - idxExtendedArmorStart) ≤ p.length := by
    simp only [idxExtendedArmorStart, idxMac]
    omega
  have hflags : idxFlags < p.length := by
    simp only [idxFlags]
    omega
  set x := cryptExtended C (C.agree ephemeral (C.publicKey identity))
    (p.length - idxExtendedArmorStart) p with hx
  have hxlen : x.length = p.length := length_cryptExtended _ hfit
  refine ⟨x ++ C.publicKey ephemeral, ?_, ?_, ?_, fun f => ?_⟩
  · rw [wrapExtended, ← hx, if_neg (by rw [hxlen]; omega)]
  · rw [List.length_append, hxlen, C.length_publicKey]
  · rw [flags, byteAt_append_left (by rw [hxlen]; exact hflags), hx, cryptExtended]
    exact byteAt_splice_disjoint (by rwa [length_xorStream, length_slice hfit])
      (Or.inl (by decide))
  · have hset : setFlags (x ++ C.publicKey ephemeral) f
        = setFlags x f ++ C.publicKey ephemeral :=
      splice_append_left (by rw [hxlen]; exact Nat.succ_le_of_lt hflags)
    have hsx : (setFlags x f).length = p.length := by
      rw [length_setFlags (by rwa [hxlen]), hxlen]
    have hl : (setFlags x f ++ C.publicKey ephemeral).length - eccEphemeralPublicKeyLen
        = p.length := by
      rw [List.length_append, C.length_publicKey, hsx, Nat.add_sub_cancel]
    have hkey : slice (setFlags x f ++ C.publicKey ephemeral) p.length eccEphemeralPublicKeyLen
        = C.publicKey ephemeral := by
      have := slice_middle (c := []) hsx (C.length_publicKey ephemeral)
      rwa [List.append_nil] at this
    rw [hset, unwrapExtended]
    simp only [hl, hkey]
    rw [cryptExtended_append _ _ (by rwa [hsx]), List.take_left' ?_, hx,
      C.agree_comm identity ephemeral, cryptExtended_setFlags _ _ ?_,
      cryptExtended_cryptExtended _ hfit]
    · rwa [← hx, hxlen]
    · rw [length_cryptExtended _ (by rwa [hsx]), hsx]

/-! ### In transit -/

/-- Forwarding nodes change the three bits of the hop count and nothing else. -/
theorem incrementHops_iterate {q : Bytes} (h : idxFlags < q.length) (n : ℕ) :
    ∃ f, incrementHops^[n] q = setFlags q f ∧ f &&& 0xf8 = flags q &&& 0xf8 := by
  induction n with
  | zero => exact ⟨flags q, (setFlags_flags h).symm, rfl⟩
  | succ n ih =>
      obtain ⟨f, hq, hf⟩ := ih
      refine ⟨(f &&& 0xf8) ||| ((f + 1) &&& 0x07), ?_, ?_⟩
      · rw [Function.iterate_succ_apply', hq, incrementHops, flags_setFlags h,
          setFlags_setFlags h]
      · rw [← hf]
        exact forall_byte
          (P := fun b => ((b &&& 0xf8) ||| ((b + 1) &&& 0x07)) &&& 0xf8 = b &&& 0xf8)
          (by decide) f

/-- The flags byte of a packet armored with cipher suite `c`. -/
def armoredFlags (b : UInt8) (extendedArmor : Bool) (c : UInt8) : UInt8 :=
  ((if extendedArmor then b ||| flagExtendedArmor else b &&& ~~~flagExtendedArmor) &&& 0xc7) |||
    ((c <<< (3 : UInt8)) &&& 0x38)

theorem setCipher_setExtendedArmor (L : Layout) (x : Bool) (c : UInt8) :
    setCipher (setExtendedArmor L.bytes x) c
      = (L.withFlags (armoredFlags L.flags x c)).bytes := by
  simp only [setCipher, setExtendedArmor, Layout.setFlags_bytes, Layout.flags_bytes]
  rfl

/-- What the flags byte of an armored packet says on arrival. -/
structure ArrivedFlags (b : UInt8) (x : Bool) (c f : UInt8) : Prop where
  hopless : armoredFlags b x c &&& 0xf8 = armoredFlags b x c
  cipher : (f &&& 0x38) >>> 3 = c
  extended : ((f &&& flagExtendedArmor) != 0) = x
  fragmented : f &&& flagFragmented = b &&& flagFragmented

/-- Every byte that agrees with the armored flags except in the hop count says the
same. -/
theorem arrivedFlags {b f : UInt8} (x : Bool) {c : UInt8}
    (hc : c = cipherPoly1305None ∨ c = cipherPoly1305Salsa2012 ∨ c = cipherAesGmacSiv)
    (hb : b &&& 0x07 = 0) (hf : f &&& 0xf8 = armoredFlags b x c &&& 0xf8) :
    ArrivedFlags b x c f := by
  have hmask : ∀ m : UInt8, m &&& 0xf8 = m → f &&& m = armoredFlags b x c &&& m := by
    intro m hm
    rw [← hm, UInt8.and_comm m, ← UInt8.and_assoc, hf, UInt8.and_assoc]
  have key : ∀ b : UInt8, b &&& 0x07 = 0 →
      armoredFlags b x c &&& 0xf8 = armoredFlags b x c ∧
      (armoredFlags b x c &&& 0x38) >>> 3 = c ∧
      ((armoredFlags b x c &&& flagExtendedArmor) != 0) = x ∧
      armoredFlags b x c &&& flagFragmented = b &&& flagFragmented := by
    rcases hc with rfl | rfl | rfl <;> cases x <;>
      exact forall_byte (by decide)
  obtain ⟨h₁, h₂, h₃, h₄⟩ := key b hb
  exact ⟨h₁, by rw [hmask 0x38 (by decide), h₂], by rw [hmask _ (by decide), h₃],
    by rw [hmask _ (by decide), h₄]⟩

/-! ### The round trip -/

/-- The cipher suite `armor` chooses. -/
def armorCipher (aesKeys : Option C.AesKeys) (encryptPayload : Bool) : UInt8 :=
  if encryptPayload then
    if aesKeys.isSome then cipherAesGmacSiv else cipherPoly1305Salsa2012
  else
    cipherPoly1305None

/-- AES-GMAC-SIV needs the keys and an encrypted payload. -/
theorem armorCipher_gmacSiv {aesKeys : Option C.AesKeys} {encryptPayload : Bool}
    (h : armorCipher aesKeys encryptPayload = cipherAesGmacSiv) :
    ∃ k, aesKeys = some k ∧ encryptPayload = true := by
  rcases aesKeys with - | k <;> cases encryptPayload
  · exact absurd h (show cipherPoly1305None ≠ cipherAesGmacSiv by decide)
  · exact absurd h (show cipherPoly1305Salsa2012 ≠ cipherAesGmacSiv by decide)
  · exact absurd h (show cipherPoly1305None ≠ cipherAesGmacSiv by decide)
  · exact ⟨k, rfl, rfl⟩

theorem armorCipher_poly1305 {aesKeys : Option C.AesKeys} {encryptPayload : Bool}
    (h : armorCipher aesKeys encryptPayload ≠ cipherAesGmacSiv) :
    armorCipher aesKeys encryptPayload
      = if encryptPayload then cipherPoly1305Salsa2012 else cipherPoly1305None := by
  rcases aesKeys with - | k <;> cases encryptPayload
  · rfl
  · rfl
  · rfl
  · exact absurd rfl h

theorem sealBody_poly1305 (fast : Bool) (key : Bytes) {aesKeys : Option C.AesKeys}
    {encryptPayload : Bool} (h : armorCipher aesKeys encryptPayload ≠ cipherAesGmacSiv)
    (p : Bytes) :
    sealBody C fast key aesKeys encryptPayload p = fastSeal C key encryptPayload
      (setCipher p (if encryptPayload then cipherPoly1305Salsa2012 else cipherPoly1305None)) := by
  rcases aesKeys with - | k <;> cases encryptPayload <;> cases fast <;>
    first
    | exact absurd rfl h
    | simp only [sealBody, slowSeal_eq_fastSeal, ite_self, if_true, Bool.false_eq_true, if_false]

theorem openBody_poly1305 (fast : Bool) (key : Bytes) (aesKeys : Option C.AesKeys)
    (encryptPayload : Bool) (p : Bytes) :
    openBody C fast key aesKeys
        (if encryptPayload then cipherPoly1305Salsa2012 else cipherPoly1305None) p
      = fastOpen C key
        (if encryptPayload then cipherPoly1305Salsa2012 else cipherPoly1305None) p := by
  unfold openBody
  rw [slowOpen_eq_fastOpen, ite_self, if_neg, if_pos]
  · cases encryptPayload
    · exact Or.inl rfl
    · exact Or.inr rfl
  · cases encryptPayload <;> decide

/-- What armoring changes, whatever the suite: the flags, and the bytes but not the
size of the other parts, except for the addresses. -/
theorem sealBody_parts (fast : Bool) (key : Bytes) (aesKeys : Option C.AesKeys)
    (encryptPayload x : Bool) (L : Layout) :
    ∃ S : Layout,
      sealBody C fast key aesKeys encryptPayload (setExtendedArmor L.bytes x) = S.bytes ∧
      S.body.length = L.body.length ∧ S.addresses = L.addresses ∧
      S.flags = armoredFlags L.flags x (armorCipher aesKeys encryptPayload) := by
  by_cases hg : armorCipher aesKeys encryptPayload = cipherAesGmacSiv
  · obtain ⟨k, rfl, rfl⟩ := armorCipher_gmacSiv hg
    set A := L.withFlags (armoredFlags L.flags x cipherAesGmacSiv) with hA
    obtain ⟨S, hS⟩ : ∃ S : Layout, sealGmacSiv C k A.bytes = S.bytes ∧
        S.body.length = A.body.length ∧ S.addresses = A.addresses ∧ S.flags = A.flags :=
      ⟨_, sealGmacSiv_bytes k A, C.length_gmacSivEncrypt _ _ _ _, rfl, rfl⟩
    refine ⟨S, ?_, hS.2⟩
    rw [sealBody, setCipher_setExtendedArmor, ← hS.1]
  · rw [armorCipher_poly1305 hg, sealBody_poly1305 fast key hg, setCipher_setExtendedArmor,
      fastSeal_bytes]
    exact ⟨_, rfl, length_sealedBody _ _ _, rfl, rfl⟩

/-- Armoring without the ephemeral wrapper keeps the size of the packet and its
fragmented flag. -/
theorem armor_fragmented {fast : Bool} {key : Bytes} {aesKeys : Option C.AesKeys}
    {ephemeral : C.PrivateKey} {identity : Bytes} {encryptPayload : Bool} {p q : Bytes}
    (hlen : protoMinPacketLength ≤ p.length)
    (h : armor C fast key aesKeys ephemeral identity encryptPayload false p = .ok q) :
    q.length = p.length ∧ fragmented q = fragmented p := by
  obtain ⟨L, rfl, -⟩ := Layout.exists_of_length hlen
  obtain ⟨S, hS, hSl, -, hSf⟩ := sealBody_parts (C := C) fast key aesKeys encryptPayload false L
  rw [armor, if_neg (by decide), hS] at h
  cases h
  refine ⟨by rw [S.length_bytes, L.length_bytes, hSl], ?_⟩
  rw [fragmented, fragmented, S.flags_bytes, L.flags_bytes, hSf]
  have hbit : armoredFlags L.flags false (armorCipher aesKeys encryptPayload) &&& flagFragmented
      = L.flags &&& flagFragmented := by
    unfold armorCipher
    split_ifs <;> exact forall_byte
      (P := fun b => armoredFlags b false _ &&& flagFragmented = b &&& flagFragmented)
      (by decide) _
  rw [hbit]

/-- What `dearmor` leaves of a packet with the parts `L` that arrived with the
flags `f`. -/
structure Opened (L : Layout) (gmacSiv : Prop) (f : UInt8) (M : Layout) : Prop where
  addresses : M.addresses = L.addresses
  body : M.body = L.body
  flags : M.flags = f
  iv : ¬ gmacSiv → M.iv = L.iv

/-- **Every cipher suite is undone at the other end**, whatever the hop count
became and however the two ends were built. -/
theorem openBody_sealBody (fast fast' : Bool) (key : Bytes) (aesKeys : Option C.AesKeys)
    (encryptPayload x : Bool) (L : Layout) (hhops : L.flags &&& 0x07 = 0) :
    ∃ S : Layout,
      sealBody C fast key aesKeys encryptPayload (setExtendedArmor L.bytes x) = S.bytes ∧
      S.body.length = L.body.length ∧
      S.flags = armoredFlags L.flags x (armorCipher aesKeys encryptPayload) ∧
      ∀ f, f &&& 0xf8 = S.flags &&& 0xf8 →
        ∃ M, openBody C fast' key aesKeys (armorCipher aesKeys encryptPayload)
            (setFlags S.bytes f) = (true, M.bytes) ∧
          Opened L (armorCipher aesKeys encryptPayload = cipherAesGmacSiv) f M := by
  by_cases hg : armorCipher aesKeys encryptPayload = cipherAesGmacSiv
  · -- AES-GMAC-SIV: both keys are there and the payload is encrypted
    obtain ⟨k, rfl, rfl⟩ := armorCipher_gmacSiv hg
    have hc : armorCipher (some k) true = cipherAesGmacSiv := rfl
    set A := L.withFlags (armoredFlags L.flags x cipherAesGmacSiv) with hA
    have hseal : sealBody C fast key (some k) true (setExtendedArmor L.bytes x)
        = sealGmacSiv C k A.bytes := by
      rw [sealBody, setCipher_setExtendedArmor]
    obtain ⟨S, hS, hSl, hSf⟩ : ∃ S : Layout, sealGmacSiv C k A.bytes = S.bytes ∧
        S.body.length = A.body.length ∧ S.flags = A.flags := by
      refine ⟨_, sealGmacSiv_bytes k A, C.length_gmacSivEncrypt _ _ _ _, rfl⟩
    refine ⟨S, by rw [hseal, hS], hSl, by rw [hSf]; rfl, fun f hf => ?_⟩
    have hfA : f &&& 0xf8 = A.flags := by
      rw [hf, hSf]
      exact (arrivedFlags (f := armoredFlags L.flags x cipherAesGmacSiv) x (Or.inr (Or.inr rfl))
        hhops rfl).hopless
    obtain ⟨v, hv, m, hm, ho⟩ := openGmacSiv_sealGmacSiv k A hfA
    refine ⟨((A.withIv v hv).withMac m hm).withFlags f, ?_,
      ⟨rfl, rfl, rfl, fun h => absurd hc h⟩⟩
    rw [hc, openBody, if_pos rfl, ← hS]
    exact ho
  · -- Poly1305, with or without Salsa20
    set c := if encryptPayload then cipherPoly1305Salsa2012 else cipherPoly1305None with hcdef
    have hc : armorCipher aesKeys encryptPayload = c := armorCipher_poly1305 hg
    set A := L.withFlags (armoredFlags L.flags x c) with hA
    have hseal : sealBody C fast key aesKeys encryptPayload (setExtendedArmor L.bytes x)
        = fastSeal C key encryptPayload A.bytes := by
      rw [sealBody_poly1305 fast key hg, setCipher_setExtendedArmor]
    refine ⟨_, by rw [hseal, fastSeal_bytes], length_sealedBody _ _ _, by rw [hc]; rfl,
      fun f hf => ?_⟩
    obtain ⟨m, hm, ho⟩ := fastOpen_fastSeal key encryptPayload A (f := f) hf
    refine ⟨(A.withMac m hm).withFlags f, ?_, ⟨rfl, rfl, rfl, fun _ => rfl⟩⟩
    rw [hc, hcdef, openBody_poly1305, ← fastSeal_bytes]
    exact ho

variable (C) in
/-- `r` is what the receiver should find of the packet `p` sent to it: verb,
payload and size, both addresses and the fragmented flag are those of `p`.  The
extended armor flag tells how it was sent, and only AES-GMAC-SIV, which puts its
tag there, loses the packet id. -/
structure Restored (aesKeys : Option C.AesKeys) (encryptPayload x : Bool) (p r : Bytes) :
    Prop where
  length : r.length = p.length
  body : body r = body p
  destination : destination r = destination p
  source : source r = source p
  fragmented : fragmented r = fragmented p
  extendedArmor : extendedArmor r = x
  iv : armorCipher aesKeys encryptPayload ≠ cipherAesGmacSiv → slice r idxIv 8 = slice p idxIv 8

/-- A packet opened with its flags restored is the packet restored. -/
theorem Opened.restored {aesKeys : Option C.AesKeys} {encryptPayload x : Bool} {L M : Layout}
    {f : UInt8} (hM : Opened L (armorCipher aesKeys encryptPayload = cipherAesGmacSiv) f M)
    (hf : ArrivedFlags L.flags x (armorCipher aesKeys encryptPayload) f) :
    Restored C aesKeys encryptPayload x L.bytes M.bytes := by
  have haddr : slice M.bytes 8 10 = slice L.bytes 8 10 := by
    rw [M.slice_addresses, L.slice_addresses, hM.addresses]
  have hpart : ∀ j, j + 5 ≤ 10 → slice M.bytes (8 + j) 5 = slice L.bytes (8 + j) 5 := by
    intro j hj
    rw [← slice_slice _ _ _ _ _ hj, haddr, slice_slice _ _ _ _ _ hj]
  refine ⟨?_, ?_, ?_, ?_, ?_, ?_, fun hg => ?_⟩
  · rw [M.length_bytes, L.length_bytes, hM.body]
  · rw [body_bytes, body_bytes, hM.body]
  · exact congrArg Address.ofBytes (hpart 0 (by decide))
  · exact congrArg Address.ofBytes (hpart 5 (by decide))
  · rw [fragmented, fragmented, M.flags_bytes, L.flags_bytes, hM.flags, hf.fragmented]
  · rw [Packet.extendedArmor, M.flags_bytes, hM.flags, hf.extended]
  · rw [M.slice_iv, L.slice_iv, hM.iv hg]

/-- What is armored is restored by `dearmor` after any number of hops. -/
theorem armor_opens (C : Crypto) {p : Bytes} (hlen : protoMinPacketLength ≤ p.length)
    (hhops : hops p = 0) (encryptPayload extendedArmor : Bool)
    (hroom : extendedArmor = true → p.length + eccEphemeralPublicKeyLen ≤ protoMaxPacketLength)
    (hx : extendedArmor = true → encryptPayload = false) (fast fast' : Bool) (key : Bytes)
    (aesKeys : Option C.AesKeys) (ephemeral identity : C.PrivateKey) :
    ∃ q, armor C fast key aesKeys ephemeral (C.publicKey identity) encryptPayload
        extendedArmor p = .ok q ∧
      ∀ n : ℕ, ∃ r, dearmor C fast' key aesKeys identity (incrementHops^[n] q) = (true, r) ∧
        Restored C aesKeys encryptPayload extendedArmor p r := by
  obtain ⟨L, rfl, -⟩ := Layout.exists_of_length hlen
  have hhops' : L.flags &&& 0x07 = 0 := by
    rw [← L.flags_bytes]
    exact hhops
  obtain ⟨S, hseal, hSlen, hSflags, hopen⟩ :=
    openBody_sealBody fast fast' key aesKeys encryptPayload extendedArmor L hhops'
  have hlenS : S.bytes.length = L.bytes.length := by
    rw [S.length_bytes, L.length_bytes, hSlen]
  have hidx : idxFlags < S.bytes.length := by
    simp only [protoMinPacketLength, idxFlags] at *
    omega
  -- what any packet that arrives with the sealed flags up to the hop count says of itself
  have harrived : ∀ f, f &&& 0xf8 = S.flags &&& 0xf8 →
      ArrivedFlags L.flags extendedArmor (armorCipher aesKeys encryptPayload) f := by
    intro f hf
    refine arrivedFlags extendedArmor ?_ hhops' (by rw [hf, hSflags])
    rcases aesKeys with - | k <;> cases encryptPayload <;> simp [armorCipher]
  have hdone : ∀ f, f &&& 0xf8 = S.flags &&& 0xf8 →
      ∃ r, openBody C fast' key aesKeys (armorCipher aesKeys encryptPayload)
          (setFlags S.bytes f) = (true, r) ∧
        Restored C aesKeys encryptPayload extendedArmor L.bytes r := by
    intro f hf
    obtain ⟨M, hM, hopened⟩ := hopen f hf
    exact ⟨M.bytes, hM, hopened.restored (harrived f hf)⟩
  cases extendedArmor
  · -- no wrapper: the sealed packet is what travels
    refine ⟨S.bytes, ?_, fun n => ?_⟩
    · simp only [armor, hseal, Bool.false_eq_true, if_false]
    · obtain ⟨f, hq, hf⟩ := incrementHops_iterate hidx n
      rw [S.flags_bytes] at hf
      obtain ⟨r, hr, hres⟩ := hdone f hf
      refine ⟨r, ?_, hres⟩
      have hext : Packet.extendedArmor (setFlags S.bytes f) = false := by
        rw [Packet.extendedArmor, flags_setFlags hidx, (harrived f hf).extended]
      have hcs : cipher (setFlags S.bytes f) = armorCipher aesKeys encryptPayload := by
        rw [cipher, flags_setFlags hidx, (harrived f hf).cipher]
      rw [hq, dearmor]
      simp only [hext, Bool.false_eq_true, false_and, if_false, hcs]
      exact hr
  · -- the wrapper is around an unencrypted payload
    obtain rfl := hx rfl
    obtain ⟨w, hw, hwlen, hwflags, hunwrap⟩ := unwrapExtended_wrapExtended (C := C) ephemeral
      identity (p := S.bytes) (by rwa [hlenS]) (by rw [hlenS]; exact hroom rfl)
    have hwidx : idxFlags < w.length := by
      omega
    refine ⟨w, ?_, fun n => ?_⟩
    · simp only [armor, hseal, if_true]
      exact hw
    · obtain ⟨f, hq, hf⟩ := incrementHops_iterate hwidx n
      rw [hwflags, S.flags_bytes] at hf
      obtain ⟨r, hr, hres⟩ := hdone f hf
      refine ⟨r, ?_, hres⟩
      have hext : Packet.extendedArmor (setFlags w f) = true := by
        rw [Packet.extendedArmor, flags_setFlags hwidx, (harrived f hf).extended]
      have hcs : cipher (setFlags w f) = armorCipher aesKeys false := by
        rw [cipher, flags_setFlags hwidx, (harrived f hf).cipher]
      have hsize : ¬ (setFlags w f).length < idxVerb + 1 + eccEphemeralPublicKeyLen := by
        rw [length_setFlags hwidx, hwlen, hlenS]
        simp only [protoMinPacketLength, idxVerb] at *
        omega
      rw [hq, dearmor]
      simp only [hext, hcs, true_and]
      rw [if_pos (show armorCipher aesKeys false = cipherPoly1305None from rfl), if_neg hsize,
        hunwrap]
      exact hr

/-- **Armor, relay and dearmor agree**: a plaintext packet with a zero hop count
and room for the ephemeral key, armored for a recipient and forwarded any number
of times, is accepted by the recipient and restored, with the ephemeral wrapper
used only around an unencrypted payload. -/
theorem dearmor_armor (C : Crypto) {p : Bytes} (hlen : protoMinPacketLength ≤ p.length)
    (hroom : p.length + eccEphemeralPublicKeyLen ≤ protoMaxPacketLength) (hhops : hops p = 0)
    (encryptPayload extendedArmor : Bool)
    (hx : extendedArmor = true → encryptPayload = false) (fast fast' : Bool) (key : Bytes)
    (aesKeys : Option C.AesKeys) (ephemeral identity : C.PrivateKey) (n : ℕ) :
    ∃ q r, armor C fast key aesKeys ephemeral (C.publicKey identity) encryptPayload
        extendedArmor p = .ok q ∧
      dearmor C fast' key aesKeys identity (incrementHops^[n] q) = (true, r) ∧
      Restored C aesKeys encryptPayload extendedArmor p r := by
  obtain ⟨q, hq, hopens⟩ :=
    armor_opens C hlen hhops encryptPayload extendedArmor (fun _ => hroom) hx fast fast'
    key aesKeys ephemeral identity
  obtain ⟨r, hr, hrestored⟩ := hopens n
  exact ⟨q, r, hq, hr, hrestored⟩

/-- Primitives that satisfy the laws: no keystream but that of the wrapper, which
flips one bit of every byte, and all tags and keys zero. -/
def flippingCrypto : Crypto where
  salsa2012 := fun _ _ _ => 0
  poly1305 := fun _ _ => List.replicate 16 0
  length_poly1305 := fun _ _ => rfl
  AesKeys := Unit
  gmacSivEncrypt := fun _ _ _ m => (List.replicate 16 0, m)
  length_gmacSivTag := fun _ _ _ _ => rfl
  length_gmacSivEncrypt := fun _ _ _ _ => rfl
  gmacSivDecrypt := fun _ tag _ ct => (tag == List.replicate 16 0, ct)
  gmacSivDecrypt_encrypt := fun _ _ _ _ => rfl
  aesCtr := fun _ _ _ _ => 1
  PrivateKey := Unit
  publicKey := fun _ => List.replicate 32 0
  length_publicKey := fun _ => rfl
  agree := fun _ _ => List.replicate 32 0
  agree_comm := fun _ _ => rfl

/-- A HELLO in its ephemeral wrapper, forwarded once. -/
theorem dearmor_armor_hello :
    ∃ q r, armor flippingCrypto true (List.replicate 32 0) none () (flippingCrypto.publicKey ())
        false true (List.replicate 28 0) = .ok q ∧
      dearmor flippingCrypto false (List.replicate 32 0) none () (incrementHops^[1] q) = (true, r) ∧
      Restored flippingCrypto none false true (List.replicate 28 0) r :=
  dearmor_armor flippingCrypto (by decide) (by decide) (by decide) false true (fun _ => rfl) true
    false _ none () () 1

/-- The ephemeral wrapper around an encrypted payload is not taken off: the
recipient rejects the packet. -/
theorem dearmor_armor_extended_encrypted :
    ∃ q, armor flippingCrypto true (List.replicate 32 0) none () (flippingCrypto.publicKey ())
        true true (List.replicate 28 0) = .ok q ∧
      ¬ ∃ r, dearmor flippingCrypto true (List.replicate 32 0) none () (incrementHops^[0] q)
        = (true, r) := by
  refine ⟨_, rfl, ?_⟩
  rintro ⟨r, hr⟩
  have hfst := congrArg Prod.fst hr
  change _ = true at hfst
  revert hfst
  decide +kernel

end Packet

end ZGalaxy
