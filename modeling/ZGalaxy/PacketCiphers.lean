/-
ZGalaxy/PacketCiphers.lean

Packets under the ciphers of the source.

`Packet.armor` and `Packet.dearmor` were modelled over any ciphers that satisfy the laws of `Crypto`.
Here they are over the code that they call: Salsa20 in the builds with and without SSE, Poly1305 in its
three builds, AES-GMAC-SIV and AES-CTR in software, with buffers and objects that hold anything when
they are first used (`Site`).  Both ends refine the model over the ciphers that this code computes
(`sourceCrypto`), so all that is left to assume is the key agreement.

Main results: `armorAt_eq` and `dearmorAt_eq`, the refinements; `dearmorAt_armorAt`, what one node
armors another restores, however each was built and however often the packet was forwarded; and
`dearmorAt_gmacSiv_iff`, a packet under AES-GMAC-SIV that does not announce an extended armor is
accepted exactly when it is an armored one.
-/
import ZGalaxy.Armor
import ZGalaxy.GmacSiv
import ZGalaxy.Poly1305Portable
import ZGalaxy.Salsa20

namespace ZGalaxy

open ByteList

namespace Packet

/-! ### Nodes -/

/-- The builds of Poly1305: with products of 128 bits, or with an `unsigned long` of either width. -/
inductive Poly1305Build
  | wide
  | long32
  | long64

/-- `Poly1305::compute`, with what its buffer holds, the data and the key. -/
def Poly1305Build.compute : Poly1305Build → Bytes → Bytes → Bytes → Bytes
  | .wide => Poly1305.Wide.compute
  | .long32 => Poly1305.Portable.compute 32
  | .long64 => Poly1305.Portable.compute 64

/-- How a node was built, and what its buffers hold when a packet comes to be armored or dearmored. -/
structure Site where
  /-- whether Salsa20 uses SSE -/
  sse : Bool
  poly1305 : Poly1305Build
  /-- whether the payload is aligned -/
  aligned : Bool
  /-- the temporary buffer of Salsa20 -/
  tmp : Bytes
  /-- the buffer of Poly1305 -/
  buffer : Bytes
  enc : GmacSiv.Encryptor
  dec : GmacSiv.Decryptor
  length_tmp : tmp.length = 64
  length_buffer : buffer.length = 16
  length_enc : enc.gmac.r.length = 16
  length_dec : dec.gmac.r.length = 16

/-- Key agreement, of identities and ephemeral keys. -/
structure KeyAgreement where
  PrivateKey : Type
  publicKey : PrivateKey → Bytes
  length_publicKey : ∀ s, (publicKey s).length = eccEphemeralPublicKeyLen
  agree : PrivateKey → Bytes → Bytes
  agree_comm : ∀ s t, agree s (publicKey t) = agree t (publicKey s)

/-! ### Armoring and dearmoring over the code -/

section

variable {σ : Type} (call : Bytes → σ → Bytes → Bytes × σ) (s20 : σ)
variable (compute : Bytes → Bytes → Bytes) (tmp : Bytes)

/-- The MAC branch of `armor`, with a Salsa20 cipher in the state `s20`. -/
def sealWith (encryptPayload : Bool) (p : Bytes) : Bytes :=
  let (macKey, s20) := call tmp s20 zeroKey
  let p := if encryptPayload then splice p idxVerb (call tmp s20 (body p)).1 else p
  let mac := compute (body p) macKey
  splice p idxMac (mac.take 8)

/-- The MAC branch of `dearmor`, likewise. -/
def openWith (cs : UInt8) (p : Bytes) : Bool × Bytes :=
  let (macKey, s20) := call tmp s20 zeroKey
  let mac := compute (body p) macKey
  if slice p idxMac 8 ≠ mac.take 8 then
    (false, p)
  else if cs = cipherPoly1305Salsa2012 then
    (true, splice p idxVerb (call tmp s20 (body p)).1)
  else
    (true, p)

end

variable (S : Site) (A : KeyAgreement)

/-- The MAC branch of `armor`. -/
def sealAt (key : Bytes) (encryptPayload : Bool) (p : Bytes) : Bytes :=
  let (k, iv) := (mangleKey key p, slice p idxIv 8)
  if S.sse then
    sealWith ZGalaxy.Salsa20.Sse.crypt12 (ZGalaxy.Salsa20.Sse.init k iv)
      (S.poly1305.compute S.buffer) S.tmp encryptPayload p
  else
    sealWith ZGalaxy.Salsa20.crypt12 (ZGalaxy.Salsa20.init k iv)
      (S.poly1305.compute S.buffer) S.tmp encryptPayload p

/-- The MAC branch of `dearmor`. -/
def openAt (key : Bytes) (cs : UInt8) (p : Bytes) : Bool × Bytes :=
  let (k, iv) := (mangleKey key p, slice p idxIv 8)
  if S.sse then
    openWith ZGalaxy.Salsa20.Sse.crypt12 (ZGalaxy.Salsa20.Sse.init k iv)
      (S.poly1305.compute S.buffer) S.tmp cs p
  else
    openWith ZGalaxy.Salsa20.crypt12 (ZGalaxy.Salsa20.init k iv)
      (S.poly1305.compute S.buffer) S.tmp cs p

/-- The AES-GMAC-SIV branch of `armor`. -/
def sealGmacSivAt (K : GmacSiv.Keys) (p : Bytes) : Bytes :=
  let (tag, ct) := S.enc.encrypt K (slice p idxIv 8) (slice p idxDest 11) [body p]
    [(S.aligned, body p)]
  splice (splice (splice p idxVerb ct) idxIv (slice tag 0 8)) idxMac (slice tag 8 8)

/-- The AES-GMAC-SIV branch of `dearmor`. -/
def openGmacSivAt (K : GmacSiv.Keys) (p : Bytes) : Bool × Bytes :=
  let tag := slice p idxIv 8 ++ slice p idxMac 8
  let aad := slice (setFlags p (flags p &&& 0xf8)) idxDest 11
  let (ok, pt) := S.dec.decrypt K tag aad [(S.aligned, body p)]
  (ok, splice p idxVerb pt)

/-- The part of a packet under the ephemeral key. -/
def cryptExtendedAt (secret : Bytes) (len : ℕ) (p : Bytes) : Bytes :=
  let aesCtr := Aes.Ctr.init (slice p 0 12 ++ [0, 0, 0, 0])
  let aesCtr := aesCtr.crypt S.aligned secret (slice p idxExtendedArmorStart len)
  splice p idxExtendedArmorStart (aesCtr.finish secret)

/-- The extended armor of `armor`. -/
def wrapExtendedAt (ephemeral : A.PrivateKey) (identity p : Bytes) : Except ZTException Bytes :=
  let p := cryptExtendedAt S (A.agree ephemeral identity) (p.length - idxExtendedArmorStart) p
  if protoMaxPacketLength < p.length + eccEphemeralPublicKeyLen then
    .error .outOfBounds
  else
    .ok (p ++ A.publicKey ephemeral)

/-- The extended armor of `dearmor`. -/
def unwrapExtendedAt (identity : A.PrivateKey) (p : Bytes) : Bytes :=
  let len := p.length - eccEphemeralPublicKeyLen
  let ephemeralKey := slice p len eccEphemeralPublicKeyLen
  (cryptExtendedAt S (A.agree identity ephemeralKey) (len - idxExtendedArmorStart) p).take len

/-- `armor` before the ephemeral wrapper. -/
def sealBodyAt (key : Bytes) (aesKeys : Option GmacSiv.Keys) (encryptPayload : Bool) (p : Bytes) :
    Bytes :=
  match aesKeys, encryptPayload with
  | some K, true => sealGmacSivAt S K (setCipher p cipherAesGmacSiv)
  | _, _ => sealAt S key encryptPayload
      (setCipher p (if encryptPayload then cipherPoly1305Salsa2012 else cipherPoly1305None))

/-- `Packet::armor`. -/
def armorAt (key : Bytes) (aesKeys : Option GmacSiv.Keys) (ephemeral : A.PrivateKey)
    (identity : Bytes) (encryptPayload extendedArmor : Bool) (p : Bytes) :
    Except ZTException Bytes :=
  let p := sealBodyAt S key aesKeys encryptPayload (setExtendedArmor p extendedArmor)
  if extendedArmor then wrapExtendedAt S A ephemeral identity p else .ok p

/-- `dearmor` past the ephemeral wrapper. -/
def openBodyAt (key : Bytes) (aesKeys : Option GmacSiv.Keys) (cs : UInt8) (p : Bytes) :
    Bool × Bytes :=
  if cs = cipherAesGmacSiv then
    match aesKeys with
    | some K => openGmacSivAt S K p
    | none => (false, p)
  else if cs = cipherPoly1305None ∨ cs = cipherPoly1305Salsa2012 then openAt S key cs p
  else (false, p)

/-- `Packet::dearmor`. -/
def dearmorAt (key : Bytes) (aesKeys : Option GmacSiv.Keys) (identity : A.PrivateKey) (p : Bytes) :
    Bool × Bytes :=
  let cs := cipher p
  if extendedArmor p = true ∧ cs = cipherPoly1305None then
    if p.length < idxVerb + 1 + eccEphemeralPublicKeyLen then
      (false, p)
    else
      openBodyAt S key aesKeys cs (unwrapExtendedAt S A identity p)
  else
    openBodyAt S key aesKeys cs p

/-! ### The ciphers of the source -/

/-- The first eight bytes of an initialization vector. -/
def eightBytes (iv : Bytes) : Bytes := slice (iv ++ List.replicate 8 0) 0 8

theorem length_eightBytes (iv : Bytes) : (eightBytes iv).length = 8 :=
  length_slice (by rw [List.length_append, List.length_replicate]; omega)

theorem eightBytes_eq {iv : Bytes} (h : iv.length = 8) : eightBytes iv = iv := by
  rw [eightBytes, slice, List.drop_zero, List.take_left' h]

/-- What the code of the ciphers computes. -/
@[reducible] def sourceCrypto : Crypto where
  salsa2012 := ZGalaxy.Salsa20.keystream 6
  poly1305 := Poly1305.tag
  length_poly1305 := fun _ _ => length_leDigits 16 _
  AesKeys := GmacSiv.Keys
  gmacSivEncrypt := fun K iv aad m => GmacSiv.encipher K (eightBytes iv) aad m
  length_gmacSivTag := fun K _ _ _ => GmacSiv.length_encipher_tag K _ _ _
  length_gmacSivEncrypt := fun K _ _ _ => GmacSiv.length_encipher K _ _ _
  gmacSivDecrypt := GmacSiv.decipher
  gmacSivDecrypt_encrypt := fun K iv _ _ =>
    (GmacSiv.decipher_eq_iff K (GmacSiv.length_encipher_tag K _ _ _) _ _ _).mpr
      ⟨eightBytes iv, length_eightBytes iv, rfl⟩
  aesCtr := fun key iv c => Aes.ctrStream key (iv ++ beBytes 4 c)
  PrivateKey := A.PrivateKey
  publicKey := A.publicKey
  length_publicKey := A.length_publicKey
  agree := A.agree
  agree_comm := A.agree_comm

/-! ### The code refines the model -/

/-- The size of a packet: it has a header, and fits into a `Buffer`. -/
structure Sized (p : Bytes) : Prop where
  min : protoMinPacketLength ≤ p.length
  max : p.length ≤ protoMaxPacketLength

/-- The size of each part can be counted in 32 bits. -/
theorem Sized.length_slice_lt {p : Bytes} (h : Sized p) (i n : ℕ) :
    (slice p i n).length < 2 ^ 32 := by
  have hcap : protoMaxPacketLength = 10024 := rfl
  have hmax := h.max
  rw [slice, List.length_take, List.length_drop]
  omega

theorem Sized.of_length_eq {p q : Bytes} (h : Sized p) (hq : q.length = p.length) : Sized q :=
  ⟨hq ▸ h.min, hq ▸ h.max⟩

variable {S A}

theorem Poly1305Build.compute_eq (B : Poly1305Build) {buffer key : Bytes}
    (hbuffer : buffer.length = 16) (h : key.length = 32) (m : Bytes) :
    B.compute buffer m key = Poly1305.tag key m := by
  cases B with
  | wide => exact Poly1305.Wide.compute_eq_tag hbuffer h m
  | long32 => exact Poly1305.Portable.compute_eq_tag (Or.inl rfl) hbuffer h m
  | long64 => exact Poly1305.Portable.compute_eq_tag (Or.inr rfl) hbuffer h m

/-- What a cipher of the source has to do for a packet: its first two calls. -/
structure FirstCalls {σ : Type} (call : Bytes → σ → Bytes → Bytes × σ) (s20 : σ) (tmp : Bytes)
    (stream : ℕ → UInt8) : Prop where
  first : (call tmp s20 zeroKey).1 = (Salsa20.crypt12 ⟨stream, 0⟩ zeroKey).1
  second : ∀ m, (call tmp (call tmp s20 zeroKey).2 m).1
    = (Salsa20.crypt12 (Salsa20.crypt12 ⟨stream, 0⟩ zeroKey).2 m).1

theorem FirstCalls.of_runCalls {σ : Type} {call : Bytes → σ → Bytes → Bytes × σ} {s20 : σ}
    {tmp : Bytes} {stream : ℕ → UInt8}
    (h : ∀ m, ZGalaxy.Salsa20.runCalls call s20 [(tmp, zeroKey), (tmp, m)]
      = ZGalaxy.Salsa20.cipherCalls ⟨stream, 0⟩ [zeroKey, m]) :
    FirstCalls call s20 tmp stream := by
  have hboth (m : Bytes) := h m
  simp only [ZGalaxy.Salsa20.runCalls, ZGalaxy.Salsa20.cipherCalls, List.cons.injEq, and_true]
    at hboth
  exact ⟨(hboth []).1, fun m => (hboth m).2⟩

variable {σ : Type} {call : Bytes → σ → Bytes → Bytes × σ} {s20 : σ} {compute : Bytes → Bytes → Bytes}
  {tmp : Bytes} {key p : Bytes}

theorem length_macKey (stream : ℕ → UInt8) :
    (Salsa20.crypt12 ⟨stream, 0⟩ zeroKey).1.length = 32 := by
  rw [Salsa20.crypt12, length_xorStream, zeroKey, List.length_replicate]

theorem sealWith_eq (hcall : FirstCalls call s20 tmp (packetStream (sourceCrypto A) key p))
    (hcompute : ∀ {k : Bytes}, k.length = 32 → ∀ m, compute m k = Poly1305.tag k m)
    (encryptPayload : Bool) :
    sealWith call s20 compute tmp encryptPayload p
      = slowSeal (sourceCrypto A) key encryptPayload p := by
  simp only [sealWith, slowSeal, hcall.first, hcall.second, hcompute (length_macKey _)]

theorem openWith_eq (hcall : FirstCalls call s20 tmp (packetStream (sourceCrypto A) key p))
    (hcompute : ∀ {k : Bytes}, k.length = 32 → ∀ m, compute m k = Poly1305.tag k m) (cs : UInt8) :
    openWith call s20 compute tmp cs p = slowOpen (sourceCrypto A) key cs p := by
  simp only [openWith, slowOpen, hcall.first, hcall.second, hcompute (length_macKey _)]

variable (S A) in
/-- Both builds of Salsa20. -/
theorem firstCalls (key p : Bytes) :
    FirstCalls ZGalaxy.Salsa20.crypt12 (ZGalaxy.Salsa20.init (mangleKey key p) (slice p idxIv 8)) S.tmp
        (packetStream (sourceCrypto A) key p) ∧
      FirstCalls ZGalaxy.Salsa20.Sse.crypt12
        (ZGalaxy.Salsa20.Sse.init (mangleKey key p) (slice p idxIv 8)) S.tmp
        (packetStream (sourceCrypto A) key p) := by
  have htmp : ∀ m : Bytes, ∀ c ∈ [(S.tmp, zeroKey), (S.tmp, m)], c.1.length = 64 := by
    intro m c hc
    rcases List.mem_pair.mp hc with rfl | rfl <;> exact S.length_tmp
  exact ⟨.of_runCalls fun m => ZGalaxy.Salsa20.runCalls_plain 6 _ _ (htmp m) 0,
    .of_runCalls fun m => ZGalaxy.Salsa20.runCalls_sse 6 _ _ (htmp m)⟩

theorem sealAt_eq (encryptPayload : Bool) :
    sealAt S key encryptPayload p = fastSeal (sourceCrypto A) key encryptPayload p := by
  obtain ⟨hplain, hsse⟩ := firstCalls S A key p
  rw [← slowSeal_eq_fastSeal, sealAt]
  split_ifs
  · exact sealWith_eq hsse (S.poly1305.compute_eq S.length_buffer) encryptPayload
  · exact sealWith_eq hplain (S.poly1305.compute_eq S.length_buffer) encryptPayload

theorem openAt_eq (cs : UInt8) : openAt S key cs p = fastOpen (sourceCrypto A) key cs p := by
  obtain ⟨hplain, hsse⟩ := firstCalls S A key p
  rw [← slowOpen_eq_fastOpen, openAt]
  split_ifs
  · exact openWith_eq hsse (S.poly1305.compute_eq S.length_buffer) cs
  · exact openWith_eq hplain (S.poly1305.compute_eq S.length_buffer) cs

theorem sealGmacSivAt_eq (K : GmacSiv.Keys) (hp : Sized p) :
    sealGmacSivAt S K p = sealGmacSiv (sourceCrypto A) K p := by
  have hmin := hp.min
  have hiv : (slice p idxIv 8).length = 8 := by
    refine length_slice ?_
    simp only [protoMinPacketLength, idxIv] at *
    omega
  have hpieces : [body p].flatten = ([(S.aligned, body p)].map Prod.snd).flatten := rfl
  have hroom : [body p].flatten.length < 2 ^ 32 := by
    rw [List.flatten_singleton]
    exact hp.length_slice_lt _ _
  have henc := GmacSiv.encrypt_eq K S.length_enc hiv (slice p idxDest 11) hpieces hroom
  rw [List.flatten_singleton] at henc
  simp only [sealGmacSivAt, sealGmacSiv, henc, eightBytes_eq hiv]

theorem openGmacSivAt_eq (K : GmacSiv.Keys) (hp : Sized p) :
    openGmacSivAt S K p = openGmacSiv (sourceCrypto A) K p := by
  have hmin := hp.min
  have htag : (slice p idxIv 8 ++ slice p idxMac 8).length = 16 := by
    rw [List.length_append, length_slice, length_slice] <;>
      · simp only [protoMinPacketLength, idxIv, idxMac] at *
        omega
  have hroom : ([(S.aligned, body p)].map Prod.snd).flatten.length < 2 ^ 32 := by
    rw [List.map_singleton, List.flatten_singleton]
    exact hp.length_slice_lt _ _
  have hdec := GmacSiv.decrypt_eq K S.length_dec htag
    (slice (setFlags p (flags p &&& 0xf8)) idxDest 11) hroom
  simp only [openGmacSivAt, openGmacSiv, hdec, List.map_cons, List.map_nil,
    List.flatten_singleton]

theorem cryptExtendedAt_eq (secret : Bytes) (len : ℕ) (hp : Sized p) :
    cryptExtendedAt S secret len p = cryptExtended (sourceCrypto A) secret len p := by
  have hmin := hp.min
  have hiv : (slice p 0 12 ++ [0, 0, 0, 0]).length = 16 := by
    rw [List.length_append, length_slice]
    · rfl
    · simp only [protoMinPacketLength] at hmin
      omega
  have hroom : ([(S.aligned, slice p idxExtendedArmorStart len)].map Prod.snd).flatten.length
      < 2 ^ 32 := by
    rw [List.map_singleton, List.flatten_singleton]
    exact hp.length_slice_lt _ _
  have hpieces := Aes.ctr_stream secret hiv hroom
  simp only [List.foldl_cons, List.foldl_nil, List.map_cons, List.map_nil, List.flatten_singleton]
    at hpieces
  rw [cryptExtendedAt, cryptExtended, hpieces]
  rfl

theorem length_setCipher (p : Bytes) (c : UInt8) (hp : protoMinPacketLength ≤ p.length) :
    (setCipher p c).length = p.length := by
  refine length_setFlags ?_ _
  simp only [protoMinPacketLength, idxFlags] at *
  omega

theorem length_setExtendedArmor (p : Bytes) (x : Bool) (hp : protoMinPacketLength ≤ p.length) :
    (setExtendedArmor p x).length = p.length := by
  refine length_setFlags ?_ _
  simp only [protoMinPacketLength, idxFlags] at *
  omega

variable (S A) in
/-- Armoring without the wrapper, at any node. -/
theorem sealBodyAt_eq (key : Bytes) (aesKeys : Option GmacSiv.Keys) (encryptPayload : Bool) {p : Bytes}
    (hp : Sized p) :
    sealBodyAt S key aesKeys encryptPayload p
      = sealBody (sourceCrypto A) true key aesKeys encryptPayload p := by
  rcases aesKeys with - | K <;> cases encryptPayload
  · exact sealAt_eq (A := A) _
  · exact sealAt_eq (A := A) _
  · exact sealAt_eq (A := A) _
  · exact sealGmacSivAt_eq (A := A) K (hp.of_length_eq (length_setCipher p _ hp.min))

variable (S A) in
theorem openBodyAt_eq (key : Bytes) (aesKeys : Option GmacSiv.Keys) (cs : UInt8) {p : Bytes}
    (hp : Sized p) :
    openBodyAt S key aesKeys cs p = openBody (sourceCrypto A) true key aesKeys cs p := by
  unfold openBodyAt openBody
  rcases aesKeys with - | K
  · simp only [openAt_eq (A := A), if_true]
  · simp only [openAt_eq (A := A), openGmacSivAt_eq (A := A) K hp, if_true]

/-- Sealing keeps the size of a packet. -/
theorem length_sealBody (key : Bytes) (aesKeys : Option GmacSiv.Keys) (encryptPayload x : Bool)
    {p : Bytes} (hp : protoMinPacketLength ≤ p.length) :
    (sealBody (sourceCrypto A) true key aesKeys encryptPayload (setExtendedArmor p x)).length
      = p.length := by
  obtain ⟨L, rfl, -⟩ := Layout.exists_of_length hp
  obtain ⟨T, hT, hlen, -⟩ := sealBody_parts (C := sourceCrypto A) true key aesKeys encryptPayload x L
  rw [hT, T.length_bytes, L.length_bytes, hlen]

theorem wrapExtendedAt_eq (ephemeral : A.PrivateKey) (identity : Bytes) (hp : Sized p) :
    wrapExtendedAt S A ephemeral identity p
      = wrapExtended (sourceCrypto A) ephemeral identity p := by
  rw [wrapExtendedAt, wrapExtended, cryptExtendedAt_eq (A := A) _ _ hp]

theorem unwrapExtendedAt_eq (identity : A.PrivateKey) (hp : Sized p) :
    unwrapExtendedAt S A identity p = unwrapExtended (sourceCrypto A) identity p := by
  simp only [unwrapExtendedAt, unwrapExtended, cryptExtendedAt_eq (A := A) _ _ hp]

variable (S A) in
/-- **Armoring over the code of the ciphers** is armoring over what they compute. -/
theorem armorAt_eq (key : Bytes) (aesKeys : Option GmacSiv.Keys) (ephemeral : A.PrivateKey)
    (identity : Bytes) (encryptPayload x : Bool) {p : Bytes} (hp : Sized p) :
    armorAt S A key aesKeys ephemeral identity encryptPayload x p
      = armor (sourceCrypto A) true key aesKeys ephemeral identity encryptPayload x p := by
  have hx : Sized (setExtendedArmor p x) :=
    hp.of_length_eq (length_setExtendedArmor p x hp.min)
  have hsealed : Sized (sealBody (sourceCrypto A) true key aesKeys encryptPayload
      (setExtendedArmor p x)) :=
    hp.of_length_eq (length_sealBody key aesKeys encryptPayload x hp.min)
  simp only [armorAt, armor, sealBodyAt_eq S A key aesKeys encryptPayload hx,
    wrapExtendedAt_eq ephemeral identity hsealed]

/-- What the wrapper leaves is a packet. -/
theorem Sized.unwrapExtended (hp : Sized p) (identity : A.PrivateKey)
    (hlong : idxVerb + 1 + eccEphemeralPublicKeyLen ≤ p.length) :
    Sized (unwrapExtended (sourceCrypto A) identity p) := by
  have hmax := hp.max
  simp only [idxVerb, eccEphemeralPublicKeyLen] at hlong
  have hlen : (Packet.unwrapExtended (sourceCrypto A) identity p).length = p.length - 32 := by
    unfold Packet.unwrapExtended
    simp only [List.length_take, eccEphemeralPublicKeyLen]
    rw [length_cryptExtended]
    · omega
    · simp only [idxExtendedArmorStart, idxMac]
      omega
  constructor
  · rw [hlen, protoMinPacketLength]
    omega
  · rw [hlen]
    omega

variable (S A) in
/-- **Dearmoring, likewise.** -/
theorem dearmorAt_eq (key : Bytes) (aesKeys : Option GmacSiv.Keys) (identity : A.PrivateKey)
    {p : Bytes} (hp : Sized p) :
    dearmorAt S A key aesKeys identity p
      = dearmor (sourceCrypto A) true key aesKeys identity p := by
  simp only [dearmorAt, dearmor, unwrapExtendedAt_eq identity hp,
    openBodyAt_eq S A key aesKeys _ hp]
  by_cases hext : extendedArmor p = true ∧ cipher p = cipherPoly1305None
  · rw [if_pos hext, if_pos hext]
    by_cases hshort : p.length < idxVerb + 1 + eccEphemeralPublicKeyLen
    · rw [if_pos hshort, if_pos hshort]
    · rw [if_neg hshort, if_neg hshort, openBodyAt_eq S A key aesKeys _
        (hp.unwrapExtended identity (not_lt.mp hshort))]
  · rw [if_neg hext, if_neg hext]

/-- Armoring makes a packet no longer than a `Buffer`. -/
theorem sized_of_armor {key : Bytes} {aesKeys : Option GmacSiv.Keys} {ephemeral : A.PrivateKey}
    {identity : Bytes} {encryptPayload x : Bool} {q : Bytes} (hp : Sized p)
    (h : armor (sourceCrypto A) true key aesKeys ephemeral identity encryptPayload x p = .ok q) :
    Sized q := by
  have hmin := hp.min
  have hlen := length_sealBody (A := A) key aesKeys encryptPayload x hp.min
  unfold armor at h
  cases x
  · cases h
    exact hp.of_length_eq hlen
  · simp only [if_true, wrapExtended] at h
    split_ifs at h with hroom
    cases h
    have hcrypt : (cryptExtended (sourceCrypto A) (A.agree ephemeral identity)
        ((sealBody (sourceCrypto A) true key aesKeys encryptPayload
          (setExtendedArmor p true)).length - idxExtendedArmorStart)
        (sealBody (sourceCrypto A) true key aesKeys encryptPayload
          (setExtendedArmor p true))).length = p.length := by
      rw [length_cryptExtended, hlen]
      simp only [protoMinPacketLength, idxExtendedArmorStart, idxMac] at *
      omega
    constructor
    · rw [List.length_append, hcrypt]
      exact hmin.trans (Nat.le_add_right _ _)
    · rw [List.length_append, hcrypt, A.length_publicKey]
      rw [hcrypt] at hroom
      exact not_lt.mp hroom

/-- **What one node armors another restores**, over the ciphers as the source has them: whatever the
builds of the two nodes and the contents of their buffers, whichever cipher suite is used, and however
often the packet is forwarded, with the extended armor only around an unencrypted payload. -/
theorem dearmorAt_armorAt (S S' : Site) (A : KeyAgreement) {p : Bytes} (hp : Sized p)
    (hhops : hops p = 0) (encryptPayload x : Bool)
    (hroom : x = true → p.length + eccEphemeralPublicKeyLen ≤ protoMaxPacketLength)
    (hx : x = true → encryptPayload = false) (key : Bytes)
    (aesKeys : Option GmacSiv.Keys) (ephemeral identity : A.PrivateKey) (n : ℕ) :
    ∃ q r, armorAt S A key aesKeys ephemeral (A.publicKey identity) encryptPayload x p = .ok q ∧
      dearmorAt S' A key aesKeys identity (incrementHops^[n] q) = (true, r) ∧
      Restored (sourceCrypto A) aesKeys encryptPayload x p r := by
  obtain ⟨q, hq, hopens⟩ := armor_opens (sourceCrypto A) hp.min hhops encryptPayload x hroom hx true
    true key aesKeys ephemeral identity
  obtain ⟨r, hr, hrestored⟩ := hopens n
  have hqp : Sized q := sized_of_armor hp hq
  have hmin := hqp.min
  have hidx : idxFlags < q.length := by
    simp only [protoMinPacketLength, idxFlags] at *
    omega
  obtain ⟨f, hf, -⟩ := incrementHops_iterate hidx n
  have hforwarded : Sized (incrementHops^[n] q) := by
    rw [hf]
    exact hqp.of_length_eq (length_setFlags hidx _)
  refine ⟨q, r, ?_, ?_, hrestored⟩
  · rw [armorAt_eq S A key aesKeys ephemeral _ encryptPayload x hp]
    exact hq
  · rw [dearmorAt_eq S' A key aesKeys identity hforwarded]
    exact hr

/-- A key agreement, for the packets that do not depend on it. -/
def xorAgreement : KeyAgreement where
  PrivateKey := UInt8
  publicKey := fun s => List.replicate 32 s
  length_publicKey := fun _ => List.length_replicate
  agree := fun s publicKey => List.replicate 32 (s ^^^ publicKey.headD 0)
  agree_comm := fun s t => congrArg (List.replicate 32) (UInt8.xor_comm s t)

/-- A node with SSE and an `unsigned long` of 64 bits, all of whose objects were used before. -/
def usedSite : Site where
  sse := true
  poly1305 := .long64
  aligned := false
  tmp := List.replicate 64 3
  buffer := List.replicate 16 8
  enc := GmacSiv.usedEncryptor
  dec := GmacSiv.usedDecryptor
  length_tmp := rfl
  length_buffer := rfl
  length_enc := rfl
  length_dec := rfl

/-- A node without SSE. -/
def plainSite : Site := { usedSite with sse := false, poly1305 := .wide, aligned := true }

/-- A HELLO in its extended armor, forwarded twice. -/
theorem dearmorAt_armorAt_hello : ∃ q r,
    armorAt usedSite xorAgreement (List.replicate 48 6) none (1 : UInt8)
        (xorAgreement.publicKey (2 : UInt8)) false true (List.replicate 28 0) = .ok q ∧
      dearmorAt plainSite xorAgreement (List.replicate 48 6) none (2 : UInt8) (incrementHops^[2] q)
        = (true, r) ∧
      Restored (sourceCrypto xorAgreement) none false true (List.replicate 28 0) r :=
  dearmorAt_armorAt usedSite plainSite xorAgreement ⟨by decide, by decide⟩ (by decide) false true
    (fun _ => by decide) (fun _ => rfl) (List.replicate 48 6) none (1 : UInt8) (2 : UInt8) 2

/-! ### What passes the check -/

/-- What the receiver of a packet under AES-GMAC-SIV computes. -/
theorem openGmacSivAt_bytes (S : Site) (K : GmacSiv.Keys) {L : Layout} (hL : Sized L.bytes) :
    openGmacSivAt S K L.bytes =
      ((GmacSiv.decipher K (L.iv ++ L.mac) (L.addresses ++ [L.flags &&& 0xf8]) L.body).1,
        (L.withBody (GmacSiv.decipher K (L.iv ++ L.mac) (L.addresses ++ [L.flags &&& 0xf8])
          L.body).2).bytes) := by
  have hlen := GmacSiv.length_decipher K (L.iv ++ L.mac) (L.addresses ++ [L.flags &&& 0xf8]) L.body
  rw [openGmacSivAt_eq (A := xorAgreement) K hL, openGmacSiv]
  simp only [Layout.flags_bytes, Layout.setFlags_bytes, Layout.slice_iv, Layout.slice_mac,
    Layout.slice_aad, body_bytes]
  simp only [Layout.withFlags]
  rw [L.splice_body _ hlen]

/-- What the sender makes of a packet. -/
theorem sealGmacSivAt_bytes (S : Site) (K : GmacSiv.Keys) {P : Layout} (hP : Sized P.bytes) :
    sealGmacSivAt S K P.bytes =
      (((P.withBody (GmacSiv.encipher K P.iv (P.addresses ++ [P.flags]) P.body).2).withIv
        (slice (GmacSiv.encipher K P.iv (P.addresses ++ [P.flags]) P.body).1 0 8)
        (length_slice (by rw [GmacSiv.length_encipher_tag]; decide))).withMac
        (slice (GmacSiv.encipher K P.iv (P.addresses ++ [P.flags]) P.body).1 8 8)
        (length_slice (by rw [GmacSiv.length_encipher_tag]))).bytes := by
  rw [sealGmacSivAt_eq (A := xorAgreement) K hP, sealGmacSiv_bytes]
  simp only [Layout.withIv, Layout.withBody, Layout.withMac, eightBytes_eq P.length_iv]

/-- A packet with another body and another initialization vector of the same lengths. -/
theorem Sized.withBody {L : Layout} (hL : Sized L.bytes) {f : UInt8} {b iv : Bytes}
    (hb : b.length = L.body.length) (hiv : iv.length = 8) :
    Sized (((L.withFlags f).withBody b).withIv iv hiv).bytes := by
  refine hL.of_length_eq ?_
  rw [Layout.length_bytes, Layout.length_bytes]
  exact congrArg (idxVerb + ·) hb

/-- The sender makes the packet `L`, without its hop count, of the body `b` exactly if the receiver
finds `b` in it. -/
theorem sealGmacSivAt_eq_iff (S : Site) (K : GmacSiv.Keys) {L : Layout} (hL : Sized L.bytes)
    {b iv : Bytes} (hb : b.length = L.body.length) (hiv : iv.length = 8) :
    sealGmacSivAt S K (((L.withFlags (L.flags &&& 0xf8)).withBody b).withIv iv hiv).bytes
        = (L.withFlags (L.flags &&& 0xf8)).bytes ↔
      GmacSiv.encipher K iv (L.addresses ++ [L.flags &&& 0xf8]) b = (L.iv ++ L.mac, L.body) := by
  rw [sealGmacSivAt_bytes S K (hL.withBody hb hiv)]
  have htag := GmacSiv.length_encipher_tag K iv (L.addresses ++ [L.flags &&& 0xf8]) b
  simp only [Layout.withIv, Layout.withBody, Layout.withFlags, Layout.withMac]
  constructor
  · intro h
    have hiv' := congrArg (fun p => slice p idxIv 8) h
    have hmac := congrArg (fun p => slice p idxMac 8) h
    have hbody := congrArg body h
    simp only [Layout.slice_iv, Layout.slice_mac, body_bytes] at hiv' hmac hbody
    refine Prod.ext ?_ hbody
    rw [← GmacSiv.slice_halves htag]
    exact congrArg₂ (· ++ ·) hiv' hmac
  · intro h
    have hfront : slice (L.iv ++ L.mac) 0 8 = L.iv := by
      rw [slice, List.drop_zero, List.take_left' L.length_iv]
    have hback : slice (L.iv ++ L.mac) 8 8 = L.mac := by
      rw [slice, List.drop_left' L.length_iv, List.take_of_length_le L.length_mac.le]
    simp only [h, hfront, hback]

/-- The flags that `armor` gives a packet under AES-GMAC-SIV, where they are its flags before. -/
theorem armoredFlags_self {f : UInt8} (hcs : (f &&& 0x38) >>> 3 = cipherAesGmacSiv)
    (hx : ((f &&& flagExtendedArmor) != 0) = false) :
    armoredFlags (f &&& 0xf8) false cipherAesGmacSiv = f &&& 0xf8 := by
  have key : ∀ f : UInt8, (f &&& 0x38) >>> 3 = cipherAesGmacSiv →
      ((f &&& flagExtendedArmor) != 0) = false →
        armoredFlags (f &&& 0xf8) false cipherAesGmacSiv = f &&& 0xf8 := forall_byte (by decide)
  exact key f hcs hx

/-- What `armor` makes of a packet whose flags are those that it sets. -/
theorem armorAt_gmacSiv (S : Site) (A : KeyAgreement) (K : GmacSiv.Keys) (key : Bytes)
    (ephemeral : A.PrivateKey) (identity : Bytes) {P : Layout}
    (hP : armoredFlags P.flags false cipherAesGmacSiv = P.flags) :
    armorAt S A key (some K) ephemeral identity true false P.bytes
      = .ok (sealGmacSivAt S K P.bytes) := by
  simp only [armorAt, sealBodyAt, Bool.false_eq_true, if_false, setCipher_setExtendedArmor, hP]
  rfl

/-- **A packet under AES-GMAC-SIV is accepted exactly when it was armored**: a receiver takes the
packet `L`, which does not announce an extended armor, for the packet `r` if and only if `r` is `L`
with some body, and `armor` makes `L`, up to its hop count, of a packet with that body and some
initialization vector. -/
theorem dearmorAt_gmacSiv_iff (S S' : Site) (A : KeyAgreement) (K : GmacSiv.Keys)
    (key key' : Bytes) (identity ephemeral : A.PrivateKey) (identity' : Bytes) {L : Layout}
    (hL : Sized L.bytes) (hcs : cipher L.bytes = cipherAesGmacSiv)
    (hx : extendedArmor L.bytes = false) (r : Bytes) :
    dearmorAt S A key (some K) identity L.bytes = (true, r) ↔
      ∃ b iv hiv, b.length = L.body.length ∧ r = (L.withBody b).bytes ∧
        armorAt S' A key' (some K) ephemeral identity' true false
            (((L.withFlags (L.flags &&& 0xf8)).withBody b).withIv iv hiv).bytes
          = .ok (L.withFlags (L.flags &&& 0xf8)).bytes := by
  have htag : (L.iv ++ L.mac).length = 16 := by
    rw [List.length_append, L.length_iv, L.length_mac]
  have hopen : dearmorAt S A key (some K) identity L.bytes = openGmacSivAt S K L.bytes := by
    simp only [dearmorAt, hx, hcs, Bool.false_eq_true, false_and, if_false, openBodyAt, if_true]
  have hflags : armoredFlags (L.flags &&& 0xf8) false cipherAesGmacSiv = L.flags &&& 0xf8 := by
    rw [cipher, L.flags_bytes] at hcs
    rw [extendedArmor, L.flags_bytes] at hx
    exact armoredFlags_self hcs hx
  -- the flags are those that the sender sets
  have hseal (b iv : Bytes) (hiv : iv.length = 8) :
      armorAt S' A key' (some K) ephemeral identity' true false
          (((L.withFlags (L.flags &&& 0xf8)).withBody b).withIv iv hiv).bytes
        = .ok (sealGmacSivAt S' K
          (((L.withFlags (L.flags &&& 0xf8)).withBody b).withIv iv hiv).bytes) := by
    refine armorAt_gmacSiv S' A K key' ephemeral identity' ?_
    exact hflags
  rw [hopen, openGmacSivAt_bytes S K hL, Prod.mk.injEq]
  constructor
  · rintro ⟨hok, hr⟩
    have hlen := GmacSiv.length_decipher K (L.iv ++ L.mac) (L.addresses ++ [L.flags &&& 0xf8]) L.body
    rcases hfound : GmacSiv.decipher K (L.iv ++ L.mac) (L.addresses ++ [L.flags &&& 0xf8]) L.body
      with ⟨ok, b⟩
    rw [hfound] at hok hr hlen
    dsimp only at hok hr hlen
    rw [hok, GmacSiv.decipher_eq_iff K htag] at hfound
    obtain ⟨iv, hiv, henc⟩ := hfound
    refine ⟨b, iv, hiv, hlen, hr.symm, ?_⟩
    rw [hseal, (sealGmacSivAt_eq_iff S' K hL hlen hiv).mpr henc]
  · rintro ⟨b, iv, hiv, hb, rfl, harmor⟩
    rw [hseal] at harmor
    have henc := (sealGmacSivAt_eq_iff S' K hL hb hiv).mp (Except.ok.inj harmor)
    have haccepted := (GmacSiv.decipher_eq_iff K htag (L.addresses ++ [L.flags &&& 0xf8]) L.body
      b).mpr ⟨iv, hiv, henc⟩
    rw [haccepted]
    exact ⟨rfl, rfl⟩

/-- A packet with a verb and one byte of payload, for AES-GMAC-SIV. -/
def shortLayout : Layout where
  iv := List.replicate 8 1
  addresses := List.replicate 10 2
  flags := 0x18
  mac := List.replicate 8 0
  body := [4, 5]
  length_iv := rfl
  length_addresses := rfl
  length_mac := rfl

/-- Its tag and its ciphertext. -/
def sealedShort : Bytes × Bytes :=
  GmacSiv.encipher GmacSiv.zeroKeys shortLayout.iv (shortLayout.addresses ++ [shortLayout.flags])
    shortLayout.body

theorem length_sealedShort : sealedShort.1.length = 16 ∧ sealedShort.2.length = 2 :=
  ⟨GmacSiv.length_encipher_tag _ _ _ _, GmacSiv.length_encipher _ _ _ _⟩

/-- What a node makes of it. -/
def armoredShort : Layout where
  iv := slice sealedShort.1 0 8
  addresses := shortLayout.addresses
  flags := shortLayout.flags
  mac := slice sealedShort.1 8 8
  body := sealedShort.2
  length_iv := length_slice (by rw [length_sealedShort.1]; decide)
  length_addresses := shortLayout.length_addresses
  length_mac := length_slice (by rw [length_sealedShort.1])

/-- The packet is accepted as it was. -/
theorem dearmorAt_gmacSiv_short :
    dearmorAt usedSite xorAgreement (List.replicate 48 6) (some GmacSiv.zeroKeys) (2 : UInt8)
      armoredShort.bytes = (true, (armoredShort.withBody [4, 5]).bytes) := by
  have hbody : [4, 5].length = armoredShort.body.length := length_sealedShort.2.symm
  have hsized : Sized armoredShort.bytes := by
    constructor <;> rw [Layout.length_bytes, ← hbody] <;> decide
  have hflags : flags armoredShort.bytes = 0x18 := armoredShort.flags_bytes
  have hiv : (List.replicate 8 (1 : UInt8)).length = 8 := rfl
  have henc : GmacSiv.encipher GmacSiv.zeroKeys (List.replicate 8 1)
      (armoredShort.addresses ++ [armoredShort.flags &&& 0xf8]) [4, 5]
        = (armoredShort.iv ++ armoredShort.mac, armoredShort.body) := by
    have hsame : armoredShort.flags &&& 0xf8 = shortLayout.flags := by decide
    have htag : armoredShort.iv ++ armoredShort.mac = sealedShort.1 :=
      GmacSiv.slice_halves length_sealedShort.1
    rw [hsame, htag]
    rfl
  refine (dearmorAt_gmacSiv_iff usedSite plainSite xorAgreement GmacSiv.zeroKeys _
    (List.replicate 48 7) (2 : UInt8) (1 : UInt8) [] hsized (by rw [cipher, hflags]; decide)
    (by rw [extendedArmor, hflags]; decide) _).mpr
      ⟨[4, 5], List.replicate 8 1, hiv, hbody, rfl, ?_⟩
  have hsealed := (sealGmacSivAt_eq_iff plainSite GmacSiv.zeroKeys hsized hbody hiv).mpr henc
  refine (armorAt_gmacSiv plainSite xorAgreement GmacSiv.zeroKeys _ (1 : UInt8) [] ?_).trans
    (congrArg Except.ok hsealed)
  exact armoredFlags_self (f := 0x18) (by decide) (by decide)

end Packet

end ZGalaxy
