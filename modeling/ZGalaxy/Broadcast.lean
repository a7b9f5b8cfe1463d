/-
ZGalaxy/Broadcast.lean

A packet sent over every alive path, under the broadcast bonding policy.

`_trySend` hands one and the same packet to `_sendViaSpecificPath` for each path.  The first path
without trust armors it where it stands; every path after that sets its fragmented flag again,
which the MAC covers, and a trusted path then calls it plaintext.  What the packet has been through
is its `Stage`, and a path suits the stage when none of this shows.

Main result: `copies_decodable_iff`, every copy is decodable, whatever the ciphers do, exactly when
every path fits the packet and suits the stage it is at.  For the ciphers that tell a packet that
does not suit, see `tellingCrypto`.
-/
import ZGalaxy.Fragmenting

namespace ZGalaxy

open ByteList

/-! ### The copies -/

/-- What two peers have in common, and what one knows of the other. -/
structure Link (C : Crypto) where
  key : Bytes
  aesKeys : C.AesKeys
  /-- whether the version of the remote peer has AES -/
  aesSupported : Bool
  ephemeral : C.PrivateKey
  /-- the key pair of the remote peer -/
  identity : C.PrivateKey

/-- What the sender armors packets with. -/
def Link.keys {C : Crypto} (link : Link C) : PeerKeys C where
  key := link.key
  aesKeysIfSupported := if link.aesSupported then some link.aesKeys else none
  ephemeral := link.ephemeral
  identity := C.publicKey link.identity

/-- The loop over the alive paths in `_trySend`: each path with whether sending a head over it
succeeds.  The copies with their datagrams, and the exception that ended the loop. -/
def trySendBroadcast (C : Crypto) (fast : Bool) (keys : PeerKeys C) (encrypt : Bool) :
    Bytes → List (OutboundPath × Bool) → List (Bytes × List Bytes) × Option ZTException
  | _, [] => ([], none)
  | packet, path :: paths =>
      match sendViaSpecificPath C fast keys path.1 path.2 encrypt packet with
      | .error e => ([], some e)
      | .ok (packet, datagrams, some e) => ([(packet, datagrams)], some e)
      | .ok (packet, datagrams, none) =>
          let rest := trySendBroadcast C fast keys encrypt packet paths
          ((packet, datagrams) :: rest.1, rest.2)

/-- What arrived over `path` is taken for the packet `p`: it has the trusted path id and is
plaintext, or it passes `dearmor`; verb and payload are those of `p`. -/
def Accepted {C : Crypto} (fast : Bool) (link : Link C) (path : OutboundPath)
    (p q : Bytes) : Prop :=
  (Packet.cipher q = cipherNoCryptoTrustedPath ∧ path.trustedPathId ≠ 0 ∧
    Packet.trustedPathId q = path.trustedPathId ∧ Packet.body q = Packet.body p) ∨
  (Packet.cipher q ≠ cipherNoCryptoTrustedPath ∧ ∃ r,
    Packet.dearmor C fast link.key (some link.aesKeys) link.identity q = (true, r) ∧
      Packet.body r = Packet.body p)

/-- Every copy whose head could be sent joins to a packet that the remote peer accepts. -/
def CopiesDecodable {C : Crypto} (fast fast' : Bool) (link : Link C) (self : Address)
    (encrypt : Bool) (p q : Bytes) (paths : List (OutboundPath × Bool)) : Prop :=
  List.Forall₂ (fun path copy => path.2 = true →
      ∃ r, Joins self copy.2 r ∧ Accepted fast' link path.1 p r)
    paths (trySendBroadcast C fast link.keys encrypt q paths).1

/-- A packet as `_trySend` gets it, for the node `node`. -/
structure Outgoing (node : Address) (p : Bytes) : Prop where
  min : protoMinPacketLength ≤ p.length
  max : p.length ≤ protoMaxPacketLength
  destination : Packet.destination p = node
  source : Packet.source p ≠ node
  unreserved : Address.isReserved (Packet.source p) = false
  plain : Packet.isEncrypted p = false
  hopless : Packet.hops p = 0

/-! ### The paths that suit -/

/-- The MTU that `_sendViaSpecificPath` uses. -/
def OutboundPath.effectiveMtu (path : OutboundPath) : ℕ :=
  if 0 < path.userSpecifiedMtu then path.userSpecifiedMtu else path.mtu

/-- What the packet has been through: it is plaintext, it was armored with the fragmented flag one
way or the other, or it was marked as plaintext after that. -/
inductive Stage
  | plain
  | armored (fragmented : Bool)
  | spoiled
  deriving DecidableEq, Repr

/-- The stage after a path. -/
def Stage.next (encrypt : Bool) (n : ℕ) (path : OutboundPath) : Stage → Stage
  | plain =>
      if encrypt = true ∧ path.trustedPathId = 0 then armored (decide (path.effectiveMtu < n))
      else plain
  | armored fragmented => if path.trustedPathId = 0 then armored fragmented else spoiled
  | spoiled => spoiled

/-- An armored packet goes only over paths without trust, all of which fragment it or none. -/
def Stage.Suits (n : ℕ) (path : OutboundPath) : Stage → Prop
  | plain => True
  | armored fragmented =>
      path.trustedPathId = 0 ∧ decide (path.effectiveMtu < n) = fragmented
  | spoiled => False

/-- Every path over which a head is sent fits the packet and suits the stage it is at. -/
def SafePaths (encrypt : Bool) (n : ℕ) : Stage → List (OutboundPath × Bool) → Prop
  | _, [] => True
  | stage, path :: paths =>
      (path.2 = true → FitsMtu path.1.effectiveMtu n ∧ stage.Suits n path.1) ∧
        SafePaths encrypt n (stage.next encrypt n path.1) paths

/-! ### The packet after a path -/

/-- The packet as it leaves over a path. -/
def sentPacket (C : Crypto) (fast : Bool) (keys : PeerKeys C) (path : OutboundPath) (encrypt : Bool)
    (q : Bytes) : Bytes :=
  let q := Packet.setFragmented q (decide (path.effectiveMtu < q.length))
  if path.trustedPathId ≠ 0 then Packet.setTrusted q path.trustedPathId
  else if Packet.isEncrypted q then q
  else Packet.sealBody C fast keys.key keys.aesKeysIfSupported encrypt
    (Packet.setExtendedArmor q false)

theorem sendViaSpecificPath_eq (C : Crypto) (fast : Bool) (keys : PeerKeys C) (path : OutboundPath)
    (sent encrypt : Bool) (q : Bytes) :
    sendViaSpecificPath C fast keys path sent encrypt q
      = .ok (sentPacket C fast keys path encrypt q,
          emit path.effectiveMtu sent (sentPacket C fast keys path encrypt q)) := by
  have hcut : decide (min q.length path.effectiveMtu < q.length)
      = decide (path.effectiveMtu < q.length) := by
    rw [decide_eq_decide]
    omega
  unfold sendViaSpecificPath sentPacket
  rw [← OutboundPath.effectiveMtu]
  dsimp only
  rw [hcut]
  split_ifs with htrusted hencrypted
  · rfl
  · rfl
  · rfl

/-! ### The flags byte -/

/-- The flags byte with another fragmented flag. -/
def fragmentedFlags (b : UInt8) (fragmented : Bool) : UInt8 :=
  if fragmented then b ||| flagFragmented else b &&& ~~~flagFragmented

/-- The flags byte of a packet marked as plaintext over a trusted path. -/
def trustedFlags (b : UInt8) : UInt8 :=
  (b &&& 0xc7) ||| ((cipherNoCryptoTrustedPath <<< (3 : UInt8)) &&& 0x38)

theorem fragmentedFlags_spec (b : UInt8) (x : Bool) :
    ((fragmentedFlags b x &&& flagFragmented) != 0) = x ∧
      fragmentedFlags b x &&& 0x38 = b &&& 0x38 ∧ fragmentedFlags b x &&& 0x07 = b &&& 0x07 := by
  have key : ∀ y : Bool, ∀ b : BitVec 8,
      ((fragmentedFlags (UInt8.ofBitVec b) y &&& flagFragmented) != 0) = y ∧
        fragmentedFlags (UInt8.ofBitVec b) y &&& 0x38 = UInt8.ofBitVec b &&& 0x38 ∧
        fragmentedFlags (UInt8.ofBitVec b) y &&& 0x07 = UInt8.ofBitVec b &&& 0x07 := by
    decide +kernel
  exact key x b.toBitVec

theorem fragmentedFlags_twice (b : UInt8) (x y : Bool) :
    fragmentedFlags (fragmentedFlags b x) y = fragmentedFlags b y ∧
      fragmentedFlags b ((b &&& flagFragmented) != 0) = b := by
  have key : ∀ x y : Bool, ∀ b : BitVec 8,
      fragmentedFlags (fragmentedFlags (UInt8.ofBitVec b) x) y
          = fragmentedFlags (UInt8.ofBitVec b) y ∧
        fragmentedFlags (UInt8.ofBitVec b) ((UInt8.ofBitVec b &&& flagFragmented) != 0)
          = UInt8.ofBitVec b := by
    decide +kernel
  exact key x y b.toBitVec

theorem trustedFlags_spec (b : UInt8) :
    (trustedFlags b &&& 0x38) >>> 3 = cipherNoCryptoTrustedPath ∧
      ((trustedFlags b &&& flagFragmented) != 0) = ((b &&& flagFragmented) != 0) ∧
      trustedFlags b &&& 0x07 = b &&& 0x07 := by
  have key : ∀ b : BitVec 8,
      (trustedFlags (UInt8.ofBitVec b) &&& 0x38) >>> 3 = cipherNoCryptoTrustedPath ∧
        ((trustedFlags (UInt8.ofBitVec b) &&& flagFragmented) != 0)
          = ((UInt8.ofBitVec b &&& flagFragmented) != 0) ∧
        trustedFlags (UInt8.ofBitVec b) &&& 0x07 = UInt8.ofBitVec b &&& 0x07 := by
    decide +kernel
  exact key b.toBitVec

namespace Layout

variable (M : Layout)

theorem setFragmented_bytes (x : Bool) :
    Packet.setFragmented M.bytes x = (M.withFlags (fragmentedFlags M.flags x)).bytes := by
  rw [Packet.setFragmented, M.setFlags_bytes, M.flags_bytes]
  rfl

theorem setTrusted_bytes (id : BitVec 64) :
    Packet.setTrusted M.bytes id
      = ((M.withFlags (trustedFlags M.flags)).withMac (beBytes 8 id.toNat)
        (length_beBytes _ _)).bytes := by
  rw [Packet.setTrusted, Packet.setCipher, M.setFlags_bytes, M.flags_bytes, splice_mac]
  rfl

theorem length_withFlags (b : UInt8) : (M.withFlags b).bytes.length = M.bytes.length := by
  rw [length_bytes, length_bytes]
  rfl

/-- Its cipher field decides whether a packet is taken for an encrypted one. -/
theorem isEncrypted_congr {N : Layout} (h : M.flags &&& 0x38 = N.flags &&& 0x38) :
    Packet.isEncrypted M.bytes = Packet.isEncrypted N.bytes := by
  simp only [Packet.isEncrypted, Packet.cipher, flags_bytes, h]

/-- A packet with the addresses and the size of an outgoing one is on its way. -/
theorem transitAt {self : Address} {L M : Layout} {mtu : ℕ} (h : Outgoing self L.bytes)
    (haddr : M.addresses = L.addresses) (hlen : M.body.length = L.body.length)
    (hfrag : Packet.fragmented M.bytes = decide (mtu < M.bytes.length)) :
    TransitAt mtu self M.bytes := by
  have hsize : M.bytes.length = L.bytes.length := by
    rw [length_bytes, length_bytes, hlen]
  have hslice : ∀ j, j + 5 ≤ 10 → slice M.bytes (8 + j) 5 = slice L.bytes (8 + j) 5 := by
    intro j hj
    rw [← slice_slice _ _ _ _ _ hj, M.slice_addresses, haddr, ← L.slice_addresses,
      slice_slice _ _ _ _ _ hj]
  have hdst : Packet.destination M.bytes = Packet.destination L.bytes :=
    congrArg Address.ofBytes (hslice 0 (by decide))
  have hsrc : Packet.source M.bytes = Packet.source L.bytes :=
    congrArg Address.ofBytes (hslice 5 (by decide))
  exact ⟨hsize ▸ h.min, hsize ▸ h.max, hdst.trans h.destination, hsrc ▸ h.source,
    hsrc ▸ h.unreserved, hfrag⟩

end Layout

/-! ### Every stage is kept -/

section Sufficient

variable {C : Crypto} {fast fast' encrypt : Bool} {link : Link C} {self : Address} {L : Layout}
  {path : OutboundPath}

/-- `M` is the packet `L`, with other flags, another id or another MAC, and not armored. -/
structure PlainAs (L M : Layout) : Prop where
  addresses : M.addresses = L.addresses
  body : M.body = L.body
  hopless : M.flags &&& 0x07 = 0
  plain : Packet.isEncrypted M.bytes = false

/-- `S` is what the packet `L` was armored to. -/
structure ArmoredAs (fast' : Bool) (link : Link C) (L : Layout) (fragmented : Bool) (S : Layout) :
    Prop where
  addresses : S.addresses = L.addresses
  length : S.body.length = L.body.length
  fragmented : Packet.fragmented S.bytes = fragmented
  encrypted : Packet.isEncrypted S.bytes = true
  opens : ∃ r,
    Packet.dearmor C fast' link.key (some link.aesKeys) link.identity S.bytes = (true, r) ∧
    Packet.body r = L.body

/-- What the packet is at a stage. -/
def HoldsAt (fast' : Bool) (link : Link C) (L : Layout) : Stage → Bytes → Prop
  | .plain, q => ∃ M, q = M.bytes ∧ PlainAs L M
  | .armored fragmented, q =>
      ∃ S x, q = Packet.setFragmented S.bytes x ∧ ArmoredAs fast' link L fragmented S
  | .spoiled, _ => True

/-- A body that is opened with no AES keys is opened with any. -/
theorem openBody_some {key : Bytes} {k : C.AesKeys} {cs : UInt8} {q r : Bytes}
    (h : Packet.openBody C fast' key none cs q = (true, r)) :
    Packet.openBody C fast' key (some k) cs q = (true, r) := by
  unfold Packet.openBody at h ⊢
  by_cases hg : cs = cipherAesGmacSiv
  · rw [if_pos hg] at h
    cases h
  · rw [if_neg hg] at h ⊢
    exact h

/-- What sealing makes of a packet that is not armored. -/
theorem seal_spec (fast fast' encrypt : Bool) (link : Link C) {M : Layout} (hM : PlainAs L M) :
    ∃ S, Packet.sealBody C fast link.keys.key link.keys.aesKeysIfSupported encrypt
        (Packet.setExtendedArmor M.bytes false) = S.bytes ∧
      S.addresses = L.addresses ∧ S.body.length = L.body.length ∧
      Packet.fragmented S.bytes = Packet.fragmented M.bytes ∧
      Packet.cipher S.bytes ≠ cipherNoCryptoTrustedPath ∧
      (encrypt = true → Packet.isEncrypted S.bytes = true) ∧
      (encrypt = false → PlainAs L S) ∧
      ∃ r, Packet.dearmor C fast' link.key (some link.aesKeys) link.identity S.bytes = (true, r) ∧
        Packet.body r = L.body := by
  set aesKeys := link.keys.aesKeysIfSupported with haes
  set c := Packet.armorCipher aesKeys encrypt with hc
  obtain ⟨S, hS, hSl, hSf, hopen⟩ :=
    Packet.openBody_sealBody fast fast' link.keys.key aesKeys encrypt false M hM.hopless
  obtain ⟨S', hS', -, hSa, -⟩ := Packet.sealBody_parts fast link.keys.key aesKeys encrypt false M
  have haddr : S.addresses = L.addresses := by
    rw [← S.slice_addresses, ← hS, hS', S'.slice_addresses, hSa, hM.addresses]
  have hsuite : c = cipherPoly1305None ∨ c = cipherPoly1305Salsa2012 ∨ c = cipherAesGmacSiv := by
    rw [hc]
    unfold Packet.armorCipher
    split_ifs
    · exact .inr (.inr rfl)
    · exact .inr (.inl rfl)
    · exact .inl rfl
  have harrived : Packet.ArrivedFlags M.flags false c S.flags :=
    Packet.arrivedFlags false hsuite hM.hopless (by rw [hSf])
  have hcipher : Packet.cipher S.bytes = c := by
    rw [Packet.cipher, S.flags_bytes]
    exact harrived.cipher
  have hextended : Packet.extendedArmor S.bytes = false := by
    rw [Packet.extendedArmor, S.flags_bytes]
    exact harrived.extended
  have hsame : Packet.setFlags S.bytes S.flags = S.bytes := by
    rw [S.setFlags_bytes]
    rfl
  refine ⟨S, hS, haddr, hSl.trans (congrArg List.length hM.body), ?_, ?_, ?_, ?_, ?_⟩
  · rw [Packet.fragmented, S.flags_bytes, harrived.fragmented, Packet.fragmented, M.flags_bytes]
  · rw [hcipher]
    rcases hsuite with h | h | h <;> rw [h] <;> decide
  · intro he
    rw [Packet.isEncrypted, hcipher, hc, Packet.armorCipher, if_pos he]
    split_ifs <;> rfl
  · intro he
    have hnone : c = cipherPoly1305None := by
      rw [hc, Packet.armorCipher, if_neg (by rw [he]; decide)]
    have hbody : S.body = M.body := by
      have hg : c ≠ cipherAesGmacSiv := by
        rw [hnone]
        decide
      rw [Packet.sealBody_poly1305 fast link.keys.key hg, Packet.setCipher_setExtendedArmor,
        Packet.fastSeal_bytes, he] at hS
      rw [← Packet.body_bytes S, ← hS, Packet.body_bytes]
      rfl
    refine ⟨haddr, hbody.trans hM.body, ?_, ?_⟩
    · have hlow : ∀ b : BitVec 8, UInt8.ofBitVec b &&& 0xf8 = UInt8.ofBitVec b →
          UInt8.ofBitVec b &&& 0x07 = 0 := by
        decide +kernel
      have hhop := harrived.hopless
      rw [hc, ← hSf] at hhop
      exact hlow S.flags.toBitVec hhop
    · rw [Packet.isEncrypted, hcipher, hnone]
      rfl
  · obtain ⟨N, hN, hopened⟩ := hopen S.flags rfl
    rw [hsame] at hN
    refine ⟨N.bytes, ?_, ?_⟩
    · rw [Packet.dearmor, hcipher, hextended, if_neg (fun h => Bool.false_ne_true h.1)]
      rcases hk : link.aesSupported with - | -
      · have hnone : aesKeys = none := by
          rw [haes, Link.keys, hk]
          rfl
        rw [← hc, hnone] at hN
        exact openBody_some hN
      · have hsome : aesKeys = some link.aesKeys := by
          rw [haes, Link.keys, hk]
          rfl
        rw [← hc, hsome] at hN
        exact hN
    · rw [Packet.body_bytes, hopened.body, hM.body]

/-- Another fragmented flag leaves the cipher. -/
theorem isEncrypted_fragmentedFlags (M : Layout) (x : Bool) :
    Packet.isEncrypted (M.withFlags (fragmentedFlags M.flags x)).bytes
      = Packet.isEncrypted M.bytes :=
  Layout.isEncrypted_congr _ (fragmentedFlags_spec M.flags x).2.1

/-- A path without trust armors a packet that is not encrypted. -/
theorem sentPacket_bare (fast encrypt : Bool) (link : Link C) {M : Layout}
    (hM : Packet.isEncrypted M.bytes = false) (hid : path.trustedPathId = 0) :
    sentPacket C fast link.keys path encrypt M.bytes
      = Packet.sealBody C fast link.keys.key link.keys.aesKeysIfSupported encrypt
          (Packet.setExtendedArmor
            (M.withFlags
              (fragmentedFlags M.flags (decide (path.effectiveMtu < M.bytes.length)))).bytes
            false) := by
  unfold sentPacket
  dsimp only
  rw [if_neg (not_not.mpr hid), M.setFragmented_bytes, isEncrypted_fragmentedFlags, hM,
    if_neg Bool.false_ne_true]

/-- With the fragmented flag of a path, a plain packet is still plain. -/
theorem PlainAs.withFragmented {M : Layout} (hM : PlainAs L M) (x : Bool) :
    PlainAs L (M.withFlags (fragmentedFlags M.flags x)) :=
  ⟨hM.addresses, hM.body, (fragmentedFlags_spec M.flags x).2.2.trans hM.hopless,
    (isEncrypted_fragmentedFlags M x).trans hM.plain⟩

/-- A path without trust sends an armored packet as it is, up to the fragmented flag. -/
theorem sentPacket_kept (fast encrypt : Bool) (link : Link C) {M : Layout}
    (hM : Packet.isEncrypted M.bytes = true)
    (hid : path.trustedPathId = 0) :
    sentPacket C fast link.keys path encrypt M.bytes
      = (M.withFlags
        (fragmentedFlags M.flags (decide (path.effectiveMtu < M.bytes.length)))).bytes := by
  unfold sentPacket
  dsimp only
  rw [if_neg (not_not.mpr hid), M.setFragmented_bytes, isEncrypted_fragmentedFlags, hM, if_pos rfl]

theorem sentPacket_armored (fast encrypt : Bool) (link : Link C) {S : Layout}
    (hS : Packet.isEncrypted S.bytes = true) (x : Bool)
    (hid : path.trustedPathId = 0) :
    sentPacket C fast link.keys path encrypt (Packet.setFragmented S.bytes x)
      = Packet.setFragmented S.bytes (decide (path.effectiveMtu < S.bytes.length)) := by
  have hkept : Packet.isEncrypted (S.withFlags (fragmentedFlags S.flags x)).bytes = true :=
    (isEncrypted_fragmentedFlags S x).trans hS
  rw [S.setFragmented_bytes, sentPacket_kept fast encrypt link hkept hid, S.length_withFlags,
    S.setFragmented_bytes]
  exact congrArg (fun b => (S.withFlags b).bytes) (fragmentedFlags_twice S.flags x _).1

/-- A trusted path marks the packet as plaintext and leaves its body. -/
theorem sentPacket_trusted (fast encrypt : Bool) (link : Link C) (M : Layout)
    (hid : path.trustedPathId ≠ 0) :
    ∃ N : Layout, sentPacket C fast link.keys path encrypt M.bytes = N.bytes ∧
      N.addresses = M.addresses ∧ N.body = M.body ∧ N.iv = M.iv ∧
      N.flags &&& 0x07 = M.flags &&& 0x07 ∧
      Packet.cipher N.bytes = cipherNoCryptoTrustedPath ∧
      Packet.fragmented N.bytes = decide (path.effectiveMtu < M.bytes.length) ∧
      Packet.trustedPathId N.bytes = path.trustedPathId := by
  set x := decide (path.effectiveMtu < M.bytes.length) with hx
  obtain ⟨hfrag, -, hhops⟩ := fragmentedFlags_spec M.flags x
  obtain ⟨hcipher, htfrag, hthops⟩ := trustedFlags_spec (fragmentedFlags M.flags x)
  refine ⟨((M.withFlags _).withFlags (trustedFlags (fragmentedFlags M.flags x))).withMac
    (beBytes 8 path.trustedPathId.toNat) (length_beBytes _ _), ?_, rfl, rfl, rfl,
    hthops.trans hhops, ?_, ?_, ?_⟩
  · unfold sentPacket
    dsimp only
    rw [if_pos hid, ← hx, M.setFragmented_bytes, Layout.setTrusted_bytes]
    rfl
  · rw [Packet.cipher, Layout.flags_bytes]
    exact hcipher
  · rw [Packet.fragmented, Layout.flags_bytes]
    exact htfrag.trans hfrag
  · rw [Packet.trustedPathId, Layout.slice_mac]
    show BitVec.ofNat 64 (beNat (beBytes 8 path.trustedPathId.toNat)) = path.trustedPathId
    have hlt : path.trustedPathId.toNat < 256 ^ 8 :=
      lt_of_lt_of_eq path.trustedPathId.isLt (by norm_num)
    rw [beNat_beBytes, Nat.mod_eq_of_lt hlt, BitVec.ofNat_toNat, BitVec.setWidth_eq]

/-- **One path**: the packet is what its next stage says, and what left over a path that suits is
accepted. -/
theorem holdsAt_next (fast fast' encrypt : Bool) (link : Link C) (path : OutboundPath)
    (hout : Outgoing self L.bytes) {stage : Stage} {q : Bytes}
    (hq : HoldsAt fast' link L stage q) :
    HoldsAt fast' link L (stage.next encrypt L.bytes.length path)
        (sentPacket C fast link.keys path encrypt q) ∧
      (stage.Suits L.bytes.length path →
        TransitAt path.effectiveMtu self (sentPacket C fast link.keys path encrypt q) ∧
          (sentPacket C fast link.keys path encrypt q).length = L.bytes.length ∧
          Accepted fast' link path L.bytes (sentPacket C fast link.keys path encrypt q)) := by
  cases stage with
  | plain =>
      obtain ⟨M, rfl, hM⟩ := hq
      have hsize : M.bytes.length = L.bytes.length := by
        rw [M.length_bytes, L.length_bytes, hM.body]
      by_cases hid : path.trustedPathId = 0
      · have hsent := sentPacket_bare fast encrypt link hM.plain hid
        set x := decide (path.effectiveMtu < M.bytes.length) with hx
        have hM' := hM.withFragmented x
        obtain ⟨S, hS, haddr, hlen, hfrag, hcipher, henc, hplain, hopen⟩ :=
          seal_spec fast fast' encrypt link hM'
        have hsizeS : S.bytes.length = L.bytes.length := by
          rw [S.length_bytes, L.length_bytes, hlen]
        have hfragS : Packet.fragmented S.bytes = decide (path.effectiveMtu < L.bytes.length) := by
          rw [hfrag, Packet.fragmented, Layout.flags_bytes, ← hsize]
          exact (fragmentedFlags_spec M.flags x).1
        rw [hsent, hS]
        refine ⟨?_, fun _ => ⟨?_, hsizeS, .inr ⟨hcipher, ?_⟩⟩⟩
        · cases encrypt with
          | false => exact ⟨S, rfl, hplain rfl⟩
          | true =>
              refine (congrArg (fun st => HoldsAt fast' link L st S.bytes)
                (if_pos ⟨rfl, hid⟩ : Stage.next true L.bytes.length path .plain = _)).mpr ?_
              refine ⟨S, Packet.fragmented S.bytes, ?_, haddr, hlen, hfragS, henc rfl, hopen⟩
              rw [S.setFragmented_bytes, Packet.fragmented, S.flags_bytes,
                (fragmentedFlags_twice S.flags false false).2]
              rfl
        · exact Layout.transitAt hout haddr hlen (hsizeS ▸ hfragS)
        · rw [Packet.body_bytes]
          exact hopen
      · obtain ⟨N, hN, haddr, hbody, -, hhops, hcipher, hfrag, htrusted⟩ :=
          sentPacket_trusted fast encrypt link M hid
        have hsizeN : N.bytes.length = L.bytes.length := by
          rw [N.length_bytes, L.length_bytes, hbody, hM.body]
        rw [hN]
        refine ⟨?_, fun _ => ⟨?_, hsizeN, .inl ⟨hcipher, hid, htrusted, ?_⟩⟩⟩
        · refine (congrArg (fun st => HoldsAt fast' link L st N.bytes)
            (if_neg fun h => hid h.2 : Stage.next encrypt L.bytes.length path .plain = _)).mpr ?_
          refine ⟨N, rfl, haddr.trans hM.addresses, hbody.trans hM.body, hhops.trans hM.hopless, ?_⟩
          rw [Packet.isEncrypted, hcipher]
          rfl
        · exact Layout.transitAt hout (haddr.trans hM.addresses)
            (congrArg List.length (hbody.trans hM.body)) (by rw [hfrag, hsize, hsizeN])
        · rw [Packet.body_bytes, Packet.body_bytes, hbody, hM.body]
  | armored fragmented =>
      obtain ⟨S, x, rfl, hS⟩ := hq
      have hsizeS : S.bytes.length = L.bytes.length := by
        rw [S.length_bytes, L.length_bytes, hS.length]
      by_cases hid : path.trustedPathId = 0
      · rw [sentPacket_armored fast encrypt link hS.encrypted x hid, hsizeS]
        refine ⟨?_, fun hsuits => ?_⟩
        · refine (congrArg (fun st => HoldsAt fast' link L st _)
            (if_pos hid : Stage.next encrypt L.bytes.length path (.armored fragmented) = _)).mpr ?_
          exact ⟨S, _, rfl, hS⟩
        · have hkeep : Packet.setFragmented S.bytes (decide (path.effectiveMtu < L.bytes.length))
              = S.bytes := by
            rw [hsuits.2, ← hS.fragmented, S.setFragmented_bytes, Packet.fragmented, S.flags_bytes,
              (fragmentedFlags_twice S.flags false false).2]
            rfl
          rw [hkeep]
          refine ⟨Layout.transitAt hout hS.addresses hS.length ?_, hsizeS, .inr ⟨?_, ?_⟩⟩
          · rw [hS.fragmented, hsizeS, hsuits.2]
          · intro hc
            have henc := hS.encrypted
            rw [Packet.isEncrypted, hc] at henc
            exact absurd henc (by decide)
          · rw [Packet.body_bytes]
            exact hS.opens
      · refine ⟨?_, fun hsuits => absurd hsuits.1 hid⟩
        refine (congrArg (fun st => HoldsAt fast' link L st _)
          (if_neg hid : Stage.next encrypt L.bytes.length path (.armored fragmented) = _)).mpr ?_
        trivial
  | spoiled => exact ⟨trivial, fun hsuits => hsuits.elim⟩

/-- **Every copy is decodable** over paths that are safe. -/
theorem copiesDecodable_of_safe (hout : Outgoing self L.bytes) {stage : Stage} {q : Bytes}
    {paths : List (OutboundPath × Bool)} (hq : HoldsAt fast' link L stage q)
    (hsafe : SafePaths encrypt L.bytes.length stage paths) :
    CopiesDecodable fast fast' link self encrypt L.bytes q paths := by
  -- on the paths: the packet moves on to its next stage over each of them
  induction paths generalizing stage q with
  | nil => exact .nil
  | cons path paths ih =>
      obtain ⟨hpath, hrest⟩ := hsafe
      obtain ⟨hnext, hsuits⟩ := holdsAt_next fast fast' encrypt link path.1 hout hq
      have hnone : (emit path.1.effectiveMtu path.2
          (sentPacket C fast link.keys path.1 encrypt q)).2 = none := by
        cases hsent : path.2 with
        | false =>
            unfold emit
            rw [if_neg fun h => Bool.false_ne_true h.1]
        | true =>
            obtain ⟨hfits, hsuit⟩ := hpath hsent
            obtain ⟨htransit, hlen, -⟩ := hsuits hsuit
            exact emit_of_fits htransit.min htransit.max fun _ => by rwa [hlen]
      unfold CopiesDecodable trySendBroadcast
      rw [sendViaSpecificPath_eq]
      generalize hemit : emit path.1.effectiveMtu path.2
        (sentPacket C fast link.keys path.1 encrypt q) = e at hnone
      obtain ⟨datagrams, err⟩ := e
      obtain rfl : err = none := hnone
      refine .cons (fun hsent => ?_) (ih hnext hrest)
      obtain ⟨hfits, hsuit⟩ := hpath hsent
      obtain ⟨htransit, hlen, haccepted⟩ := hsuits hsuit
      rw [hsent] at hemit
      have hjoins := (joins_emit_iff htransit).mpr ⟨rfl, by rwa [hlen]⟩
      rw [hemit] at hjoins
      exact ⟨_, hjoins, haccepted⟩

end Sufficient

/-- The copies of a packet over several paths: the one over the first, and the others, if that was
not cut short. -/
theorem CopiesDecodable.cons {C : Crypto} {fast fast' encrypt : Bool} {link : Link C}
    {self : Address}
    {p q : Bytes} {path : OutboundPath × Bool} {paths : List (OutboundPath × Bool)}
    (h : CopiesDecodable fast fast' link self encrypt p q (path :: paths)) :
    (path.2 = true → ∃ r, Joins self (emit path.1.effectiveMtu path.2
        (sentPacket C fast link.keys path.1 encrypt q)).1 r ∧ Accepted fast' link path.1 p r) ∧
      (CopiesDecodable fast fast' link self encrypt p
        (sentPacket C fast link.keys path.1 encrypt q) paths ∨ paths = []) := by
  unfold CopiesDecodable trySendBroadcast at h
  rw [sendViaSpecificPath_eq] at h
  generalize emit path.1.effectiveMtu path.2
    (sentPacket C fast link.keys path.1 encrypt q) = e at h ⊢
  obtain ⟨datagrams, - | err⟩ := e
  · obtain ⟨hfirst, hrest⟩ := List.forall₂_cons.mp h
    exact ⟨hfirst, .inl hrest⟩
  · obtain ⟨hfirst, hrest⟩ := List.forall₂_cons.mp h
    exact ⟨hfirst, .inr (List.forall₂_nil_right_iff.mp hrest)⟩

/-! ### Ciphers that tell -/

/-- Another byte string of the same length. -/
def scrambled (b : Bytes) : Bytes := b.map (· + 1)

/-- The tag and the ciphertext of a body: whether it was `b` itself that was encrypted, and the
last byte of the associated data, which is the flags byte. -/
def tellingEncrypt (b aad m : Bytes) : Bytes × Bytes :=
  ([if m = b then 1 else 0, aad.getLastD 0] ++ List.replicate 14 0, if m = b then scrambled b else m)

def tellingDecrypt (b tag aad ct : Bytes) : Bool × Bytes :=
  (tag.getD 1 0 == aad.getLastD 0, if tag.getD 0 0 = 1 then b else ct)

theorem length_tellingTag (b aad m : Bytes) : (tellingEncrypt b aad m).1.length = 16 := rfl

theorem length_tellingEncrypt (b aad m : Bytes) : (tellingEncrypt b aad m).2.length = m.length := by
  show (if m = b then scrambled b else m).length = m.length
  by_cases hm : m = b
  · rw [if_pos hm, hm, scrambled, List.length_map]
  · rw [if_neg hm]

theorem tellingDecrypt_encrypt (b aad m : Bytes) :
    tellingDecrypt b (tellingEncrypt b aad m).1 aad (tellingEncrypt b aad m).2 = (true, m) := by
  by_cases hm : m = b
  · simp [tellingDecrypt, tellingEncrypt, hm]
  · simp [tellingDecrypt, tellingEncrypt, hm]

/-- Ciphers that satisfy the laws, for which a packet with the body `b` is opened only as it was
armored. -/
def tellingCrypto (b : Bytes) : Crypto :=
  { Packet.flippingCrypto with
    AesKeys := Unit
    gmacSivEncrypt := fun _ _ aad m => tellingEncrypt b aad m
    length_gmacSivTag := fun _ _ aad m => length_tellingTag b aad m
    length_gmacSivEncrypt := fun _ _ aad m => length_tellingEncrypt b aad m
    gmacSivDecrypt := fun _ tag aad ct => tellingDecrypt b tag aad ct
    gmacSivDecrypt_encrypt := fun _ _ aad m => tellingDecrypt_encrypt b aad m }

/-- Two peers that have AES. -/
def tellingLink (b : Bytes) : Link (tellingCrypto b) := ⟨[], (), true, (), ()⟩

theorem scrambled_ne {b : Bytes} (hb : b ≠ []) : scrambled b ≠ b := by
  cases b with
  | nil => exact absurd rfl hb
  | cons x b =>
      intro h
      have hx : x + 1 = x := List.head_eq_of_cons_eq h
      have hne : ∀ x : BitVec 8, UInt8.ofBitVec x + 1 ≠ UInt8.ofBitVec x := by
        decide +kernel
      exact hne x.toBitVec hx

section Necessary

variable {fast encrypt : Bool} {self : Address} {L : Layout} {path : OutboundPath}

/-- What a packet that passed a path without trust is, under the ciphers that tell. -/
structure ScrambledAs (L M : Layout) : Prop where
  addresses : M.addresses = L.addresses
  body : M.body = scrambled L.body

/-- What the packet is at a stage, under the ciphers that tell. -/
def TellsAt (L : Layout) : Stage → Bytes → Prop
  | .plain, q => ∃ M, q = M.bytes ∧ PlainAs L M
  | .armored fragmented, q => ∃ M, q = M.bytes ∧ ScrambledAs L M ∧
      Packet.cipher q = cipherAesGmacSiv ∧
      ∃ f rest, M.iv = 1 :: f :: rest ∧ ((f &&& flagFragmented) != 0) = fragmented
  | .spoiled, q => ∃ M, q = M.bytes ∧ ScrambledAs L M ∧
      (Packet.cipher q = cipherNoCryptoTrustedPath ∨
        Packet.cipher q = cipherAesGmacSiv ∧ ∃ f rest, M.iv = 0 :: f :: rest)

/-- What the ciphers that tell make of a packet. -/
theorem seal_telling (fast : Bool) (L M : Layout) :
    ∃ S : Layout, Packet.sealBody (tellingCrypto L.body) fast (tellingLink L.body).keys.key
        (tellingLink L.body).keys.aesKeysIfSupported true (Packet.setExtendedArmor M.bytes false)
        = S.bytes ∧
      S.addresses = M.addresses ∧
      S.body = (if M.body = L.body then scrambled L.body else M.body) ∧
      S.flags = Packet.armoredFlags M.flags false cipherAesGmacSiv ∧
      ∃ rest, S.iv = (if M.body = L.body then 1 else 0) ::
        Packet.armoredFlags M.flags false cipherAesGmacSiv :: rest := by
  have hseal : Packet.sealBody (tellingCrypto L.body) fast (tellingLink L.body).keys.key
      (tellingLink L.body).keys.aesKeysIfSupported true (Packet.setExtendedArmor M.bytes false)
      = Packet.sealGmacSiv (tellingCrypto L.body) (tellingLink L.body).aesKeys
        (Packet.setCipher (Packet.setExtendedArmor M.bytes false) cipherAesGmacSiv) := rfl
  rw [Packet.setCipher_setExtendedArmor, Packet.sealGmacSiv_bytes] at hseal
  refine ⟨_, hseal, rfl, rfl, rfl, List.replicate 6 0, ?_⟩
  show slice ([_, (M.addresses ++ [_]).getLastD 0] ++ List.replicate 14 0) 0 8 = _
  rw [List.getLastD_concat]
  rfl

/-- What opening a packet comes to for the ciphers that tell. -/
theorem open_telling {fast' : Bool} {M : Layout} {r : Bytes}
    (hc : Packet.cipher M.bytes = cipherAesGmacSiv)
    (h : Packet.dearmor (tellingCrypto L.body) fast' (tellingLink L.body).key
      (some (tellingLink L.body).aesKeys) (tellingLink L.body).identity M.bytes = (true, r))
    {t f : UInt8} {rest : Bytes} (hiv : M.iv = t :: f :: rest)
    (hlen : M.body.length = L.body.length) :
    f = M.flags &&& 0xf8 ∧ Packet.body r = if t = 1 then L.body else M.body := by
  have hopen : Packet.dearmor (tellingCrypto L.body) fast' (tellingLink L.body).key
      (some (tellingLink L.body).aesKeys) (tellingLink L.body).identity M.bytes
      = Packet.openGmacSiv (tellingCrypto L.body) (tellingLink L.body).aesKeys M.bytes := by
    rw [Packet.dearmor, hc, if_neg fun h => absurd h.2 (by decide), Packet.openBody, if_pos rfl]
  rw [hopen, Packet.openGmacSiv] at h
  simp only [Layout.slice_iv, Layout.slice_mac, Layout.flags_bytes, Layout.setFlags_bytes,
    Layout.slice_aad, Packet.body_bytes] at h
  obtain ⟨hok, hr⟩ := Prod.mk.inj h
  have htag : ((M.iv ++ M.mac).getD 1 0 == (M.addresses ++ [M.flags &&& 0xf8]).getLastD 0) = true :=
    hok
  rw [hiv, List.getLastD_concat] at htag
  refine ⟨beq_iff_eq.mp htag, ?_⟩
  have hpt : splice M.bytes idxVerb (if (M.iv ++ M.mac).getD 0 0 = 1 then L.body else M.body) = r := hr
  rw [hiv] at hpt
  have hplain : (if t = 1 then L.body else M.body).length = M.body.length := by
    split_ifs
    · exact hlen.symm
    · rfl
  have hbody : splice M.bytes idxVerb (if t = 1 then L.body else M.body) = r := hpt
  rw [← hbody, M.splice_body _ hplain, Packet.body_bytes]
  rfl

/-- The flags of a packet armored with AES-GMAC-SIV. -/
theorem gmacFlags_spec (b : UInt8) :
    (Packet.armoredFlags b false cipherAesGmacSiv &&& 0x38) >>> 3 = cipherAesGmacSiv ∧
      ((Packet.armoredFlags b false cipherAesGmacSiv &&& flagFragmented) != 0)
        = ((b &&& flagFragmented) != 0) := by
  have key : ∀ b : BitVec 8,
      (Packet.armoredFlags (UInt8.ofBitVec b) false cipherAesGmacSiv &&& 0x38) >>> 3
          = cipherAesGmacSiv ∧
        ((Packet.armoredFlags (UInt8.ofBitVec b) false cipherAesGmacSiv &&& flagFragmented) != 0)
          = ((UInt8.ofBitVec b &&& flagFragmented) != 0) := by
    decide +kernel
  exact key b.toBitVec

/-- The hop count is not the fragmented flag. -/
theorem fragmented_masked (b : UInt8) :
    ((b &&& 0xf8 &&& flagFragmented) != 0) = ((b &&& flagFragmented) != 0) := by
  rw [UInt8.and_assoc]
  rfl

/-- A packet whose body is scrambled is not taken for a trusted one. -/
theorem not_accepted_trusted {fast' : Bool} (hbody : L.body ≠ []) {N : Layout}
    (hN : ScrambledAs L N) (hc : Packet.cipher N.bytes = cipherNoCryptoTrustedPath) :
    ¬ Accepted fast' (tellingLink L.body) path L.bytes N.bytes := by
  rintro (⟨-, -, -, hb⟩ | ⟨hne, -⟩)
  · rw [Packet.body_bytes, Packet.body_bytes, hN.body] at hb
    exact scrambled_ne hbody hb
  · exact hne hc

/-- A packet that was armored is accepted only if its own body was encrypted, with the fragmented
flag that it has. -/
theorem accepted_armored {fast' : Bool} (hbody : L.body ≠ []) {N : Layout} (hN : ScrambledAs L N)
    (hc : Packet.cipher N.bytes = cipherAesGmacSiv) {t f : UInt8} {rest : Bytes}
    (hiv : N.iv = t :: f :: rest)
    (h : Accepted fast' (tellingLink L.body) path L.bytes N.bytes) :
    t = 1 ∧ ((f &&& flagFragmented) != 0) = Packet.fragmented N.bytes := by
  rcases h with ⟨hne, -⟩ | ⟨-, r, hr, hb⟩
  · rw [hc] at hne
    exact absurd hne (by decide)
  · have hlen : N.body.length = L.body.length := by
      rw [hN.body, scrambled, List.length_map]
    obtain ⟨hf, hplain⟩ := open_telling hc hr hiv hlen
    rw [hplain, Packet.body_bytes] at hb
    refine ⟨?_, ?_⟩
    · by_contra ht
      rw [if_neg ht, hN.body] at hb
      exact scrambled_ne hbody hb
    · rw [hf, fragmented_masked, Packet.fragmented, N.flags_bytes]

/-- A trusted path spoils a packet that was armored. -/
theorem trusted_telling (fast fast' : Bool) (hout : Outgoing self L.bytes) (hbody : L.body ≠ [])
    {M : Layout} (hM : ScrambledAs L M) (hid : path.trustedPathId ≠ 0) :
    ∃ N : Layout, sentPacket (tellingCrypto L.body) fast (tellingLink L.body).keys path true M.bytes
        = N.bytes ∧
      TellsAt L .spoiled N.bytes ∧ TransitAt path.effectiveMtu self N.bytes ∧
      N.bytes.length = L.bytes.length ∧
      ¬ Accepted fast' (tellingLink L.body) path L.bytes N.bytes := by
  obtain ⟨N, hN, haddr, hNbody, -, -, hcipher, hfrag, -⟩ :=
    sentPacket_trusted fast true (tellingLink L.body) M hid
  have hlen : M.body.length = L.body.length := by
    rw [hM.body, scrambled, List.length_map]
  have hsize : M.bytes.length = L.bytes.length := by
    rw [M.length_bytes, L.length_bytes, hlen]
  have hsizeN : N.bytes.length = L.bytes.length := by
    rw [N.length_bytes, L.length_bytes, hNbody, hlen]
  have hscrambled : ScrambledAs L N := ⟨haddr.trans hM.addresses, hNbody.trans hM.body⟩
  refine ⟨N, hN, ⟨N, rfl, hscrambled, .inl hcipher⟩, ?_, hsizeN,
    not_accepted_trusted hbody hscrambled hcipher⟩
  exact Layout.transitAt hout hscrambled.addresses
    ((congrArg List.length hNbody).trans hlen) (by rw [hfrag, hsize, hsizeN])

/-- A path without trust sends on what was armored. -/
theorem kept_telling (fast fast' : Bool) (hout : Outgoing self L.bytes) (hbody : L.body ≠ [])
    {M : Layout} (hM : ScrambledAs L M) (hc : Packet.cipher M.bytes = cipherAesGmacSiv)
    {t f : UInt8} {rest : Bytes} (hiv : M.iv = t :: f :: rest) (hid : path.trustedPathId = 0) :
    ∃ N : Layout, sentPacket (tellingCrypto L.body) fast (tellingLink L.body).keys path true M.bytes
        = N.bytes ∧
      ScrambledAs L N ∧ Packet.cipher N.bytes = cipherAesGmacSiv ∧ N.iv = t :: f :: rest ∧
      TransitAt path.effectiveMtu self N.bytes ∧ N.bytes.length = L.bytes.length ∧
      (Accepted fast' (tellingLink L.body) path L.bytes N.bytes →
        t = 1 ∧ ((f &&& flagFragmented) != 0) = decide (path.effectiveMtu < L.bytes.length)) := by
  have hlen : M.body.length = L.body.length := by
    rw [hM.body, scrambled, List.length_map]
  have hsize : M.bytes.length = L.bytes.length := by
    rw [M.length_bytes, L.length_bytes, hlen]
  have henc : Packet.isEncrypted M.bytes = true := by
    rw [Packet.isEncrypted, hc]
    rfl
  set x := decide (path.effectiveMtu < M.bytes.length) with hx
  obtain ⟨hfrag, hcipher, -⟩ := fragmentedFlags_spec M.flags x
  have hkept := sentPacket_kept fast true (tellingLink L.body) henc hid
  rw [← hx] at hkept
  have hN : ScrambledAs L (M.withFlags (fragmentedFlags M.flags x)) := ⟨hM.addresses, hM.body⟩
  have hcN : Packet.cipher (M.withFlags (fragmentedFlags M.flags x)).bytes = cipherAesGmacSiv := by
    rw [← hc, Packet.cipher, Packet.cipher, Layout.flags_bytes, M.flags_bytes, ← hcipher]
    rfl
  have hfragN : Packet.fragmented (M.withFlags (fragmentedFlags M.flags x)).bytes
      = decide (path.effectiveMtu < L.bytes.length) := by
    rw [Packet.fragmented, Layout.flags_bytes, ← hsize]
    exact hfrag
  have hsizeN : (M.withFlags (fragmentedFlags M.flags x)).bytes.length = L.bytes.length := by
    rw [M.length_withFlags, hsize]
  refine ⟨_, hkept, hN, hcN, hiv, Layout.transitAt hout hM.addresses hlen (by rw [hfragN, hsizeN]),
    hsizeN, fun haccepted => ?_⟩
  obtain ⟨ht, hf⟩ := accepted_armored hbody hN hcN hiv haccepted
  exact ⟨ht, hf.trans hfragN⟩

/-- A path without trust armors a packet that is not encrypted, and what it was is in the first
byte of the tag. -/
theorem armored_telling (fast : Bool) (hout : Outgoing self L.bytes) {M : Layout}
    (hM : Packet.isEncrypted M.bytes = false) (haddr : M.addresses = L.addresses)
    (hbody : M.body = L.body ∨ M.body = scrambled L.body) (hid : path.trustedPathId = 0) :
    ∃ S : Layout, sentPacket (tellingCrypto L.body) fast (tellingLink L.body).keys path true M.bytes
        = S.bytes ∧
      ScrambledAs L S ∧ Packet.cipher S.bytes = cipherAesGmacSiv ∧
      (∃ f rest, S.iv = (if M.body = L.body then 1 else 0) :: f :: rest ∧
        ((f &&& flagFragmented) != 0) = decide (path.effectiveMtu < L.bytes.length)) ∧
      TransitAt path.effectiveMtu self S.bytes ∧ S.bytes.length = L.bytes.length := by
  have hlen : M.body.length = L.body.length := by
    rcases hbody with h | h
    · rw [h]
    · rw [h, scrambled, List.length_map]
  have hsize : M.bytes.length = L.bytes.length := by
    rw [M.length_bytes, L.length_bytes, hlen]
  have hsent := sentPacket_bare fast true (tellingLink L.body) hM hid
  set x := decide (path.effectiveMtu < M.bytes.length) with hx
  obtain ⟨S, hS, hSaddr, hSbody, hflags, rest, hiv⟩ :=
    seal_telling fast L (M.withFlags (fragmentedFlags M.flags x))
  have hscr : ScrambledAs L S := by
    refine ⟨hSaddr.trans haddr, hSbody.trans ?_⟩
    show (if M.body = L.body then scrambled L.body else M.body) = scrambled L.body
    split_ifs with h
    · rfl
    · exact hbody.resolve_left h
  have hlenS : S.body.length = L.body.length := by
    rw [hscr.body, scrambled, List.length_map]
  have hsizeS : S.bytes.length = L.bytes.length := by
    rw [S.length_bytes, L.length_bytes, hlenS]
  -- the flag is that of the path, in the packet and in its tag
  have hfrag : ((S.flags &&& flagFragmented) != 0)
      = decide (path.effectiveMtu < L.bytes.length) := by
    rw [hflags, (gmacFlags_spec _).2, ← hsize]
    exact (fragmentedFlags_spec M.flags x).1
  refine ⟨S, hsent.trans hS, hscr, ?_, ⟨_, rest, hiv, ?_⟩, ?_, hsizeS⟩
  · rw [Packet.cipher, S.flags_bytes, hflags]
    exact (gmacFlags_spec _).1
  · rw [← hflags]
    exact hfrag
  · refine Layout.transitAt hout hscr.addresses hlenS ?_
    rw [Packet.fragmented, S.flags_bytes, hfrag, hsizeS]

/-- **One path** under the ciphers that tell: the packet is what its next stage says, and what left
is accepted only if the path suits. -/
theorem tellsAt_next (fast fast' : Bool) (path : OutboundPath) (hout : Outgoing self L.bytes)
    (hbody : L.body ≠ []) {stage : Stage} {q : Bytes} (hq : TellsAt L stage q) :
    TellsAt L (stage.next true L.bytes.length path)
        (sentPacket (tellingCrypto L.body) fast (tellingLink L.body).keys path true q) ∧
      TransitAt path.effectiveMtu self
        (sentPacket (tellingCrypto L.body) fast (tellingLink L.body).keys path true q) ∧
      (sentPacket (tellingCrypto L.body) fast (tellingLink L.body).keys path true q).length
        = L.bytes.length ∧
      (Accepted fast' (tellingLink L.body) path L.bytes
          (sentPacket (tellingCrypto L.body) fast (tellingLink L.body).keys path true q) →
        stage.Suits L.bytes.length path) := by
  cases stage with
  | plain =>
      obtain ⟨M, rfl, hM⟩ := hq
      have hsize : M.bytes.length = L.bytes.length := by
        rw [M.length_bytes, L.length_bytes, hM.body]
      by_cases hid : path.trustedPathId = 0
      · obtain ⟨S, hS, hscr, hcipher, ⟨f, rest, hiv, hfrag⟩, htransit, hsizeS⟩ :=
          armored_telling fast hout hM.plain hM.addresses (.inl hM.body) hid
        rw [if_pos hM.body] at hiv
        have hnext : Stage.next true L.bytes.length path .plain
            = .armored (decide (path.effectiveMtu < L.bytes.length)) := if_pos ⟨rfl, hid⟩
        rw [hS, hnext]
        exact ⟨⟨S, rfl, hscr, hcipher, f, rest, hiv, hfrag⟩, htransit, hsizeS, fun _ => trivial⟩
      · obtain ⟨N, hN, haddr, hNbody, -, hhops, hcipher, hfrag, -⟩ :=
          sentPacket_trusted fast true (tellingLink L.body) M hid
        have hnext : Stage.next true L.bytes.length path .plain = .plain := if_neg fun h => hid h.2
        have hsizeN : N.bytes.length = L.bytes.length := by
          rw [N.length_bytes, L.length_bytes, hNbody, hM.body]
        rw [hN, hnext]
        refine ⟨⟨N, rfl, haddr.trans hM.addresses, hNbody.trans hM.body,
          hhops.trans hM.hopless, ?_⟩,
          ?_, hsizeN, fun _ => trivial⟩
        · rw [Packet.isEncrypted, hcipher]
          rfl
        · exact Layout.transitAt hout (haddr.trans hM.addresses)
            (congrArg List.length (hNbody.trans hM.body)) (by rw [hfrag, hsize, hsizeN])
  | armored fragmented =>
      obtain ⟨M, rfl, hM, hc, f, rest, hiv, hf⟩ := hq
      by_cases hid : path.trustedPathId = 0
      · obtain ⟨N, hN, hscr, hcN, hivN, htransit, hsize, haccepted⟩ :=
          kept_telling fast fast' hout hbody hM hc hiv hid
        have hnext :
            Stage.next true L.bytes.length path (.armored fragmented) = .armored fragmented :=
          if_pos hid
        rw [hN, hnext]
        refine ⟨⟨N, rfl, hscr, hcN, f, rest, hivN, hf⟩, htransit, hsize, fun h => ⟨hid, ?_⟩⟩
        exact (haccepted h).2.symm.trans hf
      · obtain ⟨N, hN, htells, htransit, hsize, hrejected⟩ :=
          trusted_telling fast fast' hout hbody hM hid
        have hnext : Stage.next true L.bytes.length path (.armored fragmented) = .spoiled :=
          if_neg hid
        rw [hN, hnext]
        exact ⟨htells, htransit, hsize, fun h => absurd h hrejected⟩
  | spoiled =>
      obtain ⟨M, rfl, hM, hspoiled⟩ := hq
      have hnext : Stage.next true L.bytes.length path .spoiled = .spoiled := rfl
      rw [hnext]
      by_cases hid : path.trustedPathId = 0
      · rcases hspoiled with hc | ⟨hc, f, rest, hiv⟩
        · -- the scrambled body is armored once more
          have hplain : Packet.isEncrypted M.bytes = false := by
            rw [Packet.isEncrypted, hc]
            rfl
          have hother : ¬ M.body = L.body := fun h => scrambled_ne hbody (hM.body.symm.trans h)
          obtain ⟨S, hS, hscr, hcipher, ⟨f, rest, hiv, -⟩, htransit, hsizeS⟩ :=
            armored_telling fast hout hplain hM.addresses (.inr hM.body) hid
          rw [if_neg hother] at hiv
          rw [hS]
          refine ⟨⟨S, rfl, hscr, .inr ⟨hcipher, f, rest, hiv⟩⟩, htransit, hsizeS, fun h => ?_⟩
          exact absurd (accepted_armored hbody hscr hcipher hiv h).1 (by decide)
        · obtain ⟨N, hN, hscr, hcN, hivN, htransit, hsize, haccepted⟩ :=
            kept_telling fast fast' hout hbody hM hc hiv hid
          rw [hN]
          exact ⟨⟨N, rfl, hscr, .inr ⟨hcN, f, rest, hivN⟩⟩, htransit, hsize,
            fun h => absurd (haccepted h).1 (by decide)⟩
      · obtain ⟨N, hN, htells, htransit, hsize, hrejected⟩ :=
          trusted_telling fast fast' hout hbody hM hid
        rw [hN]
        exact ⟨htells, htransit, hsize, fun h => absurd h hrejected⟩

/-- Over paths that are not safe, some copy is not decodable for the ciphers that tell. -/
theorem safe_of_tells {fast' : Bool} (hout : Outgoing self L.bytes) (hbody : L.body ≠ [])
    {stage : Stage} {q : Bytes} {paths : List (OutboundPath × Bool)} (hq : TellsAt L stage q)
    (h : CopiesDecodable fast fast' (tellingLink L.body) self true L.bytes q paths) :
    SafePaths true L.bytes.length stage paths := by
  induction paths generalizing stage q with
  | nil => trivial
  | cons path paths ih =>
      obtain ⟨hnext, htransit, hlen, hsuits⟩ :=
        tellsAt_next fast fast' path.1 hout hbody hq
      obtain ⟨hfirst, hrest⟩ := h.cons
      refine ⟨fun hsent => ?_, ?_⟩
      · obtain ⟨r, hjoins, haccepted⟩ := hfirst hsent
        rw [hsent] at hjoins
        obtain ⟨rfl, hfits⟩ := (joins_emit_iff htransit).mp hjoins
        exact ⟨hlen ▸ hfits, hsuits haccepted⟩
      · rcases hrest with hrest | rfl
        · exact ih hnext hrest
        · trivial

/-- Without encryption a path that does not fit is in the way. -/
theorem safe_of_plain {C : Crypto} {link : Link C} {fast' : Bool} (hout : Outgoing self L.bytes)
    {q : Bytes} {paths : List (OutboundPath × Bool)} (hq : HoldsAt fast' link L .plain q)
    (h : CopiesDecodable fast fast' link self false L.bytes q paths) :
    SafePaths false L.bytes.length .plain paths := by
  induction paths generalizing q with
  | nil => trivial
  | cons path paths ih =>
      obtain ⟨hnext, hsuits⟩ := holdsAt_next fast fast' false link path.1 hout hq
      obtain ⟨htransit, hlen, -⟩ := hsuits trivial
      have hplain : Stage.next false L.bytes.length path.1 .plain = .plain := by
        rw [Stage.next, if_neg fun hs => Bool.false_ne_true hs.1]
      rw [hplain] at hnext
      obtain ⟨hfirst, hrest⟩ := h.cons
      refine ⟨fun hsent => ⟨?_, trivial⟩, ?_⟩
      · obtain ⟨r, hjoins, -⟩ := hfirst hsent
        rw [hsent] at hjoins
        exact hlen ▸ ((joins_emit_iff htransit).mp hjoins).2
      · rw [hplain]
        rcases hrest with hrest | rfl
        · exact ih hnext hrest
        · trivial

end Necessary

theorem Outgoing.plainAs {node : Address} {L : Layout} (h : Outgoing node L.bytes) :
    PlainAs L L := by
  refine ⟨rfl, rfl, ?_, h.plain⟩
  have hhops := h.hopless
  rwa [Packet.hops, L.flags_bytes] at hhops

/-- If every copy is decodable whatever the ciphers do, the paths are safe. -/
theorem safe_of_copiesDecodable {self : Address} {p : Bytes} (hout : Outgoing self p)
    {encrypt : Bool}
    {paths : List (OutboundPath × Bool)}
    (h : ∀ (C : Crypto) (fast fast' : Bool) (link : Link C),
      CopiesDecodable fast fast' link self encrypt p p paths) :
    SafePaths encrypt p.length .plain paths := by
  obtain ⟨L, rfl, hlen⟩ := Layout.exists_of_length hout.min
  have htells := h (tellingCrypto L.body) true true (tellingLink L.body)
  cases encrypt with
  | false => exact safe_of_plain hout ⟨L, rfl, hout.plainAs⟩ htells
  | true =>
      have hbody : L.body ≠ [] := by
        intro h0
        have hmin : 28 ≤ L.bytes.length := hout.min
        rw [h0, List.length_nil, idxVerb] at hlen
        omega
      have hplain : TellsAt L .plain L.bytes := ⟨L, rfl, hout.plainAs⟩
      exact safe_of_tells hout hbody hplain htells

/-- **Exactly when every copy is decodable**, whatever the ciphers do: every path over which a head
is sent fits the packet, and, if the packet is encrypted, from the first path without trust on
there is none with trust and all of them fragment the packet or none does. -/
theorem copies_decodable_iff {self : Address} {p : Bytes} (hout : Outgoing self p) (encrypt : Bool)
    (paths : List (OutboundPath × Bool)) :
    (∀ (C : Crypto) (fast fast' : Bool) (link : Link C),
      CopiesDecodable fast fast' link self encrypt p p paths) ↔
      SafePaths encrypt p.length .plain paths := by
  constructor
  · exact fun h => safe_of_copiesDecodable hout h
  · intro hsafe C fast fast' link
    obtain ⟨L, rfl, -⟩ := Layout.exists_of_length hout.min
    have hplain : HoldsAt fast' link L .plain L.bytes := ⟨L, rfl, hout.plainAs⟩
    exact copiesDecodable_of_safe hout hplain hsafe

/-- A frame of 38 bytes for the node 2. -/
def broadcastFrame : Bytes :=
  List.replicate 12 0 ++ [2] ++ [0, 0, 0, 0, 1] ++ List.replicate 9 0 ++ [6] ++ List.replicate 10 0

theorem broadcastFrame_outgoing : Outgoing 2 broadcastFrame := by
  refine ⟨?_, ?_, ?_, ?_, ?_, ?_, ?_⟩ <;> decide +kernel

/-- A path without trust, at the default MTU. -/
def trustlessPath : OutboundPath := ⟨defaultPhysMtu, 0, 0⟩

/-- A path with trust, at the default MTU. -/
def trustingPath : OutboundPath := ⟨defaultPhysMtu, 7, 0⟩

/-- The frame survives two paths without trust behind one with, whichever way the ends were built.
-/
theorem broadcastFrame_decodable :
    CopiesDecodable true false (tellingLink []) 2 true broadcastFrame broadcastFrame
        [(trustingPath, true), (trustlessPath, true), (trustlessPath, true)] := by
  have hfits : FitsMtu defaultPhysMtu broadcastFrame.length := .inl (by decide)
  refine (copies_decodable_iff broadcastFrame_outgoing true _).mpr ?_ _ true false _
  exact ⟨fun _ => ⟨hfits, trivial⟩, fun _ => ⟨hfits, trivial⟩, fun _ => ⟨hfits, rfl, rfl⟩, trivial⟩

/-- A trusted path behind one without trust gets the ciphertext as plaintext. -/
theorem broadcastFrame_undecodable :
    ¬ ∀ (C : Crypto) (fast fast' : Bool) (link : Link C),
      CopiesDecodable fast fast' link 2 true broadcastFrame broadcastFrame
        [(trustlessPath, true), (trustingPath, true)] := by
  intro h
  obtain ⟨-, hsecond, -⟩ := safe_of_copiesDecodable broadcastFrame_outgoing h
  obtain ⟨-, hid, -⟩ := hsecond rfl
  exact absurd hid (by decide)

end ZGalaxy
