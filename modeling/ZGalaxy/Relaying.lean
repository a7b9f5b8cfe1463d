/-
ZGalaxy/Relaying.lean

Relaying along a chain of nodes.

What a node sends on of a datagram that is not for it is the datagram with its hop count one higher
and nothing else changed (`relayed_spec`), and it does so only below the limit.  The hop count is
in other places of heads and of fragments, and which of the two a datagram is does not change.

Main result: `relaying_bounded`, for chains of any length; and what comes out of `dearmor` at their
end is what came out at their beginning, up to the hop count (`dearmor_setFlags`).
-/
import ZGalaxy.Switch

namespace ZGalaxy

open ByteList

/-! ### Hop counts -/

/-- A datagram is a fragment. -/
def isFragment (d : Bytes) : Bool := byteAt d idxFragmentIndicator == addressReservedPrefix

/-- The hop count of a datagram. -/
def hopsOf (d : Bytes) : ℕ :=
  if isFragment d then (Fragment.hops d).toNat else (Packet.hops d).toNat

/-- A datagram with another hop count. -/
def withHops (d : Bytes) (n : ℕ) : Bytes :=
  if isFragment d then setByte d idxFragmentHops (UInt8.ofNat n)
  else Packet.setFlags d ((Packet.flags d &&& 0xf8) ||| UInt8.ofNat n)

theorem isFragment_withHops {d : Bytes} (h : protoMinFragmentLength < d.length) (n : ℕ)
    (hhead : isFragment d = false → protoMinPacketLength ≤ d.length) :
    isFragment (withHops d n) = isFragment d := by
  unfold withHops
  have hlen : 16 < d.length := h
  cases hf : isFragment d with
  | true =>
      rw [if_pos rfl, isFragment, setByte,
        byteAt_splice_disjoint (by simp [idxFragmentHops]; omega) (.inl (by decide))]
      exact hf
  | false =>
      have hlong : 28 ≤ d.length := hhead hf
      rw [if_neg Bool.false_ne_true, isFragment, Packet.setFlags, setByte,
        byteAt_splice_disjoint (by simp [idxFlags]; omega) (.inl (by decide))]
      exact hf

/-! ### The MAC check -/

namespace Layout

variable (L : Layout)

/-- Anything written over the body stays behind the header. -/
theorem splice_verb (v : Bytes) :
    splice L.bytes idxVerb v = (L.withBody (v ++ L.body.drop v.length)).bytes := by
  have hsplit : L.bytes = (L.iv ++ L.addresses ++ [L.flags] ++ L.mac) ++ L.body := by
    simp [bytes]
  have hlen : (L.iv ++ L.addresses ++ [L.flags] ++ L.mac).length = idxVerb := by
    simp [L.length_iv, L.length_addresses, L.length_mac, idxVerb]
  rw [splice, hsplit, List.take_left' hlen, ← hlen, List.drop_append]
  simp [bytes, withBody]

end Layout

namespace Packet

variable (C : Crypto)

theorem fastOpen_withFlags (key : Bytes) (cs : UInt8) (L : Layout) {f : UInt8}
    (hf : f &&& 0xf8 = L.flags &&& 0xf8) :
    fastOpen C key cs (L.withFlags f).bytes
      = ((fastOpen C key cs L.bytes).1, setFlags (fastOpen C key cs L.bytes).2 f) := by
  have hstream : packetStream C key (L.withFlags f).bytes = packetStream C key L.bytes :=
    packetStream_congr key rfl rfl hf rfl
  have hbody : (L.withFlags f).body = L.body := rfl
  have hfield : (L.withFlags f).mac = L.mac := rfl
  unfold fastOpen
  simp only [hstream, body_bytes, Layout.slice_mac, hbody, hfield, Layout.splice_verb]
  by_cases hmac :
    L.mac = (C.poly1305 ((List.range 32).map (packetStream C key L.bytes)) L.body).take 8
  · rw [if_neg (not_not.mpr hmac), if_neg (not_not.mpr hmac)]
    split_ifs
    · rw [Layout.setFlags_bytes]
      rfl
    · rw [Layout.setFlags_bytes]
  · rw [if_pos hmac, if_pos hmac, Layout.setFlags_bytes]

theorem openGmacSiv_withFlags (k : C.AesKeys) (L : Layout) {f : UInt8}
    (hf : f &&& 0xf8 = L.flags &&& 0xf8) :
    openGmacSiv C k (L.withFlags f).bytes
      = ((openGmacSiv C k L.bytes).1, setFlags (openGmacSiv C k L.bytes).2 f) := by
  unfold openGmacSiv
  simp only [Layout.slice_iv, Layout.slice_mac, Layout.flags_bytes, Layout.setFlags_bytes,
    Layout.slice_aad, body_bytes, Layout.splice_verb]
  simp only [Layout.withFlags, Layout.withBody, hf]

theorem openBody_withFlags (fast : Bool) (key : Bytes) (aesKeys : Option C.AesKeys) (cs : UInt8)
    (L : Layout) {f : UInt8} (hf : f &&& 0xf8 = L.flags &&& 0xf8) :
    openBody C fast key aesKeys cs (L.withFlags f).bytes
      = ((openBody C fast key aesKeys cs L.bytes).1,
        setFlags (openBody C fast key aesKeys cs L.bytes).2 f) := by
  have hset := L.setFlags_bytes f
  unfold openBody
  by_cases hgmac : cs = cipherAesGmacSiv
  · rw [if_pos hgmac, if_pos hgmac]
    cases aesKeys with
    | none => exact Prod.ext rfl hset.symm
    | some k => exact openGmacSiv_withFlags C k L hf
  rw [if_neg hgmac, if_neg hgmac]
  by_cases hpoly : cs = cipherPoly1305None ∨ cs = cipherPoly1305Salsa2012
  · rw [if_pos hpoly, if_pos hpoly]
    cases fast with
    | true => exact fastOpen_withFlags C key cs L hf
    | false =>
        rw [if_neg Bool.false_ne_true, if_neg Bool.false_ne_true, slowOpen_eq_fastOpen,
          slowOpen_eq_fastOpen]
        exact fastOpen_withFlags C key cs L hf
  · rw [if_neg hpoly, if_neg hpoly]
    exact Prod.ext rfl hset.symm

theorem cipher_setFlags {p : Bytes} (hp : idxFlags < p.length) {f : UInt8}
    (hf : f &&& 0xf8 = flags p &&& 0xf8) :
    cipher (setFlags p f) = cipher p ∧ extendedArmor (setFlags p f) = extendedArmor p := by
  have hmask : ∀ b m : UInt8, 0xf8 &&& m = m → b &&& m = b &&& 0xf8 &&& m := by
    intro b m hm
    rw [UInt8.and_assoc, hm]
  unfold cipher extendedArmor flagExtendedArmor
  rw [flags_setFlags hp, hmask f 0x38 rfl, hf, hmask (flags p) 0x38 rfl, hmask f 0x80 rfl, hf,
    hmask (flags p) 0x80 rfl]
  exact ⟨rfl, rfl⟩

theorem length_unwrapExtended (identity : C.PrivateKey) {p : Bytes}
    (hp : idxVerb + 1 + eccEphemeralPublicKeyLen ≤ p.length) :
    (unwrapExtended C identity p).length = p.length - eccEphemeralPublicKeyLen := by
  have hfit : idxExtendedArmorStart + (p.length - eccEphemeralPublicKeyLen - idxExtendedArmorStart)
      ≤ p.length := by
    simp only [idxVerb, idxExtendedArmorStart, idxMac, eccEphemeralPublicKeyLen] at hp ⊢
    omega
  unfold unwrapExtended
  dsimp only
  rw [List.length_take, length_cryptExtended _ hfit]
  omega

theorem unwrapExtended_setFlags (identity : C.PrivateKey) {p : Bytes}
    (hp : idxVerb + 1 + eccEphemeralPublicKeyLen ≤ p.length) (f : UInt8) :
    unwrapExtended C identity (setFlags p f) = setFlags (unwrapExtended C identity p) f := by
  have hlong : 60 ≤ p.length := hp
  have hflags : idxFlags < p.length := by
    simp only [idxFlags]
    omega
  have hfit : idxExtendedArmorStart + (p.length - eccEphemeralPublicKeyLen - idxExtendedArmorStart)
      ≤ p.length := by
    simp only [idxExtendedArmorStart, idxMac, eccEphemeralPublicKeyLen]
    omega
  have hkey : slice (setFlags p f) (p.length - eccEphemeralPublicKeyLen) eccEphemeralPublicKeyLen
      = slice p (p.length - eccEphemeralPublicKeyLen) eccEphemeralPublicKeyLen := by
    apply slice_setFlags hflags
    simp only [idxFlags, eccEphemeralPublicKeyLen]
    omega
  unfold unwrapExtended
  rw [length_setFlags hflags]
  dsimp only
  rw [hkey, cryptExtended_setFlags _ f hfit]
  generalize hq : cryptExtended C _ _ p = q
  have hql : q.length = p.length := by
    rw [← hq]
    exact length_cryptExtended _ hfit
  have htake : (q.take (p.length - eccEphemeralPublicKeyLen)).length
      = p.length - eccEphemeralPublicKeyLen := by
    rw [List.length_take]
    omega
  have hkept : idxFlags + 1 ≤ (q.take (p.length - eccEphemeralPublicKeyLen)).length := by
    rw [htake]
    simp only [idxFlags, eccEphemeralPublicKeyLen]
    omega
  -- the flags byte is in front of what is cut off
  have happend : setFlags q f = setFlags (q.take (p.length - eccEphemeralPublicKeyLen)) f
      ++ q.drop (p.length - eccEphemeralPublicKeyLen) := by
    have hsplit := splice_append_left (c := q.drop (p.length - eccEphemeralPublicKeyLen))
      (v := [f]) hkept
    rwa [List.take_append_drop] at hsplit
  rw [happend, List.take_left' (by rw [length_setFlags hkept, htake])]

theorem openBody_setFlags (fast : Bool) (key : Bytes) (aesKeys : Option C.AesKeys) (cs : UInt8)
    {p : Bytes} (hp : protoMinPacketLength ≤ p.length) {f : UInt8}
    (hf : f &&& 0xf8 = flags p &&& 0xf8) :
    openBody C fast key aesKeys cs (setFlags p f)
      = ((openBody C fast key aesKeys cs p).1,
        setFlags (openBody C fast key aesKeys cs p).2 f) := by
  obtain ⟨L, rfl, -⟩ := Layout.exists_of_length hp
  rw [Layout.flags_bytes] at hf
  rw [Layout.setFlags_bytes]
  exact openBody_withFlags C fast key aesKeys cs L hf

/-- **The MAC check** does not see the hop count: what is made of the packet is the same, and keeps
the hop count it arrived with. -/
theorem dearmor_setFlags (fast : Bool) (key : Bytes) (aesKeys : Option C.AesKeys)
    (identity : C.PrivateKey) {p : Bytes} (hp : protoMinPacketLength ≤ p.length) {f : UInt8}
    (hf : f &&& 0xf8 = flags p &&& 0xf8) :
    dearmor C fast key aesKeys identity (setFlags p f)
      = ((dearmor C fast key aesKeys identity p).1,
        setFlags (dearmor C fast key aesKeys identity p).2 f) := by
  have hflags : idxFlags < p.length := lt_of_lt_of_le (by decide) hp
  obtain ⟨hcipher, harmor⟩ := cipher_setFlags hflags hf
  unfold dearmor
  simp only [hcipher, harmor, length_setFlags hflags]
  split_ifs with hext hshort
  · rfl
  · have hlong := Nat.not_lt.mp hshort
    have hlen := length_unwrapExtended C identity hlong
    have hmin : protoMinPacketLength ≤ (unwrapExtended C identity p).length := by
      rw [hlen]
      simp only [protoMinPacketLength, idxVerb, eccEphemeralPublicKeyLen] at hlong ⊢
      omega
    have hsame : flags (unwrapExtended C identity p) = flags p := by
      have hself := unwrapExtended_setFlags C identity hlong (flags p)
      rw [setFlags_flags hflags] at hself
      rw [hself]
      exact flags_setFlags (lt_of_lt_of_le (by decide) hmin) _
    rw [unwrapExtended_setFlags C identity hlong f]
    exact openBody_setFlags C fast key aesKeys _ hmin (by rw [hsame]; exact hf)
  · exact openBody_setFlags C fast key aesKeys _ hp hf

end Packet

/-! ### One forward -/

section Forward

variable {Path Peer : Type*}

namespace Switch

variable (s : Switch Path) (a : Arrival Path Peer)

/-- Introducing two peers to each other sends no datagram on. -/
theorem sendDirect_notMem_introduceSource (source : Address) (peer peer' : Peer) (d : Bytes)
    (force : Bool) : Effect.sendDirect peer' d force ∉ introduceSource a source peer := by
  simp [introduceSource]

/-- What `relayFragment` sends is the fragment with one more hop, below the limit. -/
theorem relayFragment_sends {peer : Peer} {d : Bytes} {force : Bool}
    (h : Effect.sendDirect peer d force ∈ relayFragment a) :
    (Fragment.hops a.data).toNat < relayMaxHops ∧ d = Fragment.incrementHops a.data := by
  unfold relayFragment at h
  dsimp only at h
  split_ifs at h with hup hhops hdirect
  · exact absurd h List.not_mem_nil
  · simp only [Option.mem_toList, Option.map_eq_some_iff] at h
    obtain ⟨_, -, heq⟩ := h
    exact ⟨hhops, (Effect.sendDirect.inj heq).2.1.symm⟩
  · simp only [List.mem_append, Option.mem_toList, Option.map_eq_some_iff] at h
    obtain ⟨_, -, heq⟩ | ⟨_, -, heq⟩ := h <;>
      exact ⟨hhops, (Effect.sendDirect.inj heq).2.1.symm⟩
  · exact absurd h List.not_mem_nil

/-- What `relayHead` sends is the packet with one more hop, below the limit. -/
theorem relayHead_sends {peer : Peer} {d : Bytes} {force : Bool}
    (h : Effect.sendDirect peer d force ∈ (relayHead s a).2) :
    (Packet.hops a.data).toNat < relayMaxHops ∧ d = Packet.incrementHops a.data := by
  have hintro := fun source peer' => sendDirect_notMem_introduceSource a source peer' peer d force
  unfold relayHead at h
  dsimp only at h
  by_cases hup : a.amUpstream = false ∧ a.trustEstablished = false
  · rw [if_pos hup] at h
    exact absurd h List.not_mem_nil
  by_cases hfit : protoMaxPacketLength < a.data.length
  · rw [if_neg hup, if_pos hfit] at h
    exact absurd h List.not_mem_nil
  rw [if_neg hup, if_neg hfit] at h
  by_cases hhops : (Packet.hops a.data).toNat < relayMaxHops
  · rw [if_pos hhops] at h
    refine ⟨hhops, ?_⟩
    have htried : ∀ e ∈ ((a.getPeer (Packet.destination a.data)).map fun peer' =>
        (Effect.sendDirect peer' (Packet.incrementHops a.data) false : Effect Path Peer)).toList,
        e = Effect.sendDirect peer d force → d = Packet.incrementHops a.data := by
      rintro e he rfl
      simp only [Option.mem_toList, Option.map_eq_some_iff] at he
      obtain ⟨_, -, heq⟩ := he
      exact (Effect.sendDirect.inj heq).2.1.symm
    split at h
    · -- sent to the destination itself
      rcases List.mem_append.mp h with h | h
      · exact htried _ h rfl
      · split_ifs at h
        · exact absurd h (hintro _ _)
        · exact absurd h List.not_mem_nil
    · split at h
      · -- sent by way of an upstream
        rcases List.mem_append.mp h with h | h
        · rcases List.mem_append.mp h with h | h
          · exact htried _ h rfl
          · exact (Effect.sendDirect.inj (List.mem_singleton.mp h)).2.1
        · split_ifs at h
          · exact absurd h (hintro _ _)
          · exact absurd h List.not_mem_nil
      · exact htried _ h rfl
  · rw [if_neg hhops] at h
    exact absurd h List.not_mem_nil

end Switch

/-- A node that receives the datagram `d` sends `d'` on. -/
def Relayed (Path Peer : Type*) (d d' : Bytes) : Prop :=
  ∃ (self : Address) (s : Switch Path) (a : Arrival Path Peer) (peer : Peer) (force : Bool),
    a.data = d ∧ Effect.sendDirect peer d' force ∈ (s.onRemotePacket a self).2

/-- The datagram is long enough for what its fragment indicator says it is. -/
def WellSized (d : Bytes) : Prop :=
  protoMinFragmentLength < d.length ∧ (isFragment d = false → protoMinPacketLength ≤ d.length)

/-- A hop count of three bits can be read back. -/
theorem hopsOf_withHops {d : Bytes} (h : WellSized d) {n : ℕ} (hn : n < 8) :
    hopsOf (withHops d n) = n := by
  have hlen : 16 < d.length := h.1
  rw [hopsOf, isFragment_withHops h.1 n h.2]
  unfold withHops
  cases hf : isFragment d with
  | true =>
      rw [if_pos rfl, if_pos rfl, Fragment.hops,
        byteAt_setByte_same (by simp only [idxFragmentHops]; omega)]
      exact UInt8.toNat_ofNat_of_lt (lt_trans hn (by decide))
  | false =>
      have hlong : 28 ≤ d.length := h.2 hf
      rw [if_neg Bool.false_ne_true, if_neg Bool.false_ne_true, Packet.hops,
        Packet.flags_setFlags (by simp only [idxFlags]; omega)]
      have hbits : ∀ n : Fin 8, ∀ b : BitVec 8,
          (((UInt8.ofBitVec b &&& 0xf8) ||| UInt8.ofNat n.val) &&& 0x07).toNat = n.val := by
        decide +kernel
      exact hbits ⟨n, hn⟩ (Packet.flags d).toBitVec

theorem withHops_withHops {d : Bytes} (h : WellSized d) {m : ℕ} (hm : m < 8) (n : ℕ) :
    withHops (withHops d m) n = withHops d n := by
  have hlen : 16 < d.length := h.1
  have hkind := isFragment_withHops h.1 m h.2
  unfold withHops at hkind ⊢
  cases hf : isFragment d with
  | true =>
      rw [hf, if_pos rfl] at hkind
      rw [if_pos rfl, hkind, if_pos rfl, if_pos rfl]
      exact splice_splice_same (by simp only [idxFragmentHops, List.length_singleton]; omega) rfl
  | false =>
      have hlong : 28 ≤ d.length := h.2 hf
      have hflags : idxFlags < d.length := by
        simp only [idxFlags]
        omega
      rw [hf, if_neg Bool.false_ne_true] at hkind
      rw [if_neg Bool.false_ne_true, hkind, if_neg Bool.false_ne_true, if_neg Bool.false_ne_true,
        Packet.setFlags_setFlags hflags, Packet.flags_setFlags hflags]
      have hbits : ∀ m : Fin 8, ∀ b : BitVec 8,
          ((UInt8.ofBitVec b &&& 0xf8) ||| UInt8.ofNat m.val) &&& 0xf8
            = UInt8.ofBitVec b &&& 0xf8 := by
        decide +kernel
      have hkept : ((Packet.flags d &&& 0xf8) ||| UInt8.ofNat m) &&& 0xf8
          = Packet.flags d &&& 0xf8 := hbits ⟨m, hm⟩ (Packet.flags d).toBitVec
      rw [hkept]

/-- **What a forward does**: below the limit, it makes the hop count one higher. -/
theorem relayed_spec {d d' : Bytes} (h : Relayed Path Peer d d') :
    WellSized d ∧ hopsOf d < relayMaxHops ∧ d' = withHops d (hopsOf d + 1) := by
  obtain ⟨self, s, a, peer, force, rfl, hsent⟩ := h
  have hqueue : ∀ id f, Effect.sendDirect peer d' force
      ∉ (s.updateRXQueueEntry id f : Switch Path × List (Effect Path Peer)).2 := by
    intro id f hmem
    simp [Switch.updateRXQueueEntry] at hmem
  unfold Switch.onRemotePacket at hsent
  split_ifs at hsent with hlen hfrag hfit hdest hsize hsource hother hfragmented
  · exact absurd hsent List.not_mem_nil
  · -- a fragment for a different node
    have hkind : isFragment a.data = true := beq_iff_eq.mpr hfrag
    obtain ⟨hhops, rfl⟩ := Switch.relayFragment_sends a hsent
    have hbits : ∀ b : BitVec 8, (UInt8.ofBitVec b).toNat < 3 →
        (UInt8.ofBitVec b + 1) &&& protoMaxHops = UInt8.ofNat ((UInt8.ofBitVec b).toNat + 1) := by
      decide +kernel
    refine ⟨⟨hlen, fun hf => absurd (hkind.symm.trans hf) (by decide)⟩, ?_, ?_⟩
    · rw [hopsOf, if_pos hkind]
      exact hhops
    · rw [withHops, if_pos hkind, hopsOf, if_pos hkind]
      exact congrArg (setByte a.data idxFragmentHops) (hbits (Fragment.hops a.data).toBitVec hhops)
  · -- a fragment of ours
    unfold Switch.receiveFragment at hsent
    dsimp only at hsent
    split_ifs at hsent
    · exact absurd hsent (hqueue _ _)
    · exact absurd hsent List.not_mem_nil
  · exact absurd hsent List.not_mem_nil
  · -- a head for a different node
    have hkind : isFragment a.data = false := beq_eq_false_iff_ne.mpr hfrag
    obtain ⟨hhops, rfl⟩ := Switch.relayHead_sends s a hsent
    have hbits : ∀ b : BitVec 8, (UInt8.ofBitVec b &&& 0x07).toNat < 3 →
        (UInt8.ofBitVec b + 1) &&& 0x07 = UInt8.ofNat ((UInt8.ofBitVec b &&& 0x07).toNat + 1) := by
      decide +kernel
    refine ⟨⟨hlen, fun _ => hsize⟩, ?_, ?_⟩
    · rw [hopsOf, if_neg (by rw [hkind]; decide)]
      exact hhops
    · rw [withHops, if_neg (by rw [hkind]; decide), hopsOf, if_neg (by rw [hkind]; decide)]
      exact congrArg (fun x => Packet.setFlags a.data ((Packet.flags a.data &&& 0xf8) ||| x))
        (hbits (Packet.flags a.data).toBitVec hhops)
  · -- a head of ours
    unfold Switch.receiveHead at hsent
    exact absurd hsent (hqueue _ _)
  · -- a whole packet of ours
    unfold Switch.receiveWhole at hsent
    dsimp only at hsent
    split_ifs at hsent <;> simp at hsent
  · exact absurd hsent List.not_mem_nil
  · exact absurd hsent List.not_mem_nil

/-! ### Chains -/

/-- The datagram `d` reaches a first node and comes out as `d'` after `n` forwards. -/
inductive Forwarded (Path Peer : Type*) : ℕ → Bytes → Bytes → Prop
  | once {d d' : Bytes} : Relayed Path Peer d d' → Forwarded Path Peer 1 d d'
  | again {n : ℕ} {d d' d'' : Bytes} :
      Forwarded Path Peer n d d' → Relayed Path Peer d' d'' → Forwarded Path Peer (n + 1) d d''

theorem Forwarded.spec {n : ℕ} {d d' : Bytes} (h : Forwarded Path Peer n d d') :
    WellSized d ∧ hopsOf d + n ≤ relayMaxHops ∧ d' = withHops d (hopsOf d + n) := by
  induction h with
  | once h =>
      obtain ⟨hsized, hbelow, heq⟩ := relayed_spec h
      exact ⟨hsized, hbelow, heq⟩
  | @again n d d' d'' _ h ih =>
      obtain ⟨hsized, hle, rfl⟩ := ih
      have hmax : relayMaxHops = 3 := rfl
      have hsmall : hopsOf d + n < 8 := by omega
      obtain ⟨-, hbelow, heq⟩ := relayed_spec h
      rw [hopsOf_withHops hsized hsmall] at hbelow heq
      rw [withHops_withHops hsized hsmall] at heq
      exact ⟨hsized, hbelow, heq⟩

/-- **Relaying is bounded and transparent**: along any chain a datagram is forwarded at most
`relayMaxHops` times, each forward makes the hop count one higher, and nothing else of the datagram
changes.  So a head followed by whatever its fragments carry passes the MAC check of its destination
exactly if it would have without the relays, and a fragment carries what it carried. -/
theorem relaying_bounded {n : ℕ} {d d' : Bytes} (h : Forwarded Path Peer n d d') :
    n ≤ relayMaxHops ∧ hopsOf d' = hopsOf d + n ∧ hopsOf d' ≤ relayMaxHops ∧
      d' = withHops d (hopsOf d + n) ∧ isFragment d' = isFragment d ∧
      (isFragment d = false → ∀ (C : Crypto) (fast : Bool) (key : Bytes)
        (aesKeys : Option C.AesKeys) (identity : C.PrivateKey) (rest : Bytes),
        Packet.dearmor C fast key aesKeys identity (d' ++ rest)
          = ((Packet.dearmor C fast key aesKeys identity (d ++ rest)).1,
            Packet.setFlags (Packet.dearmor C fast key aesKeys identity (d ++ rest)).2
              (Packet.flags d'))) ∧
      (isFragment d = true → Fragment.packetId d' = Fragment.packetId d ∧
        Fragment.fragmentNumber d' = Fragment.fragmentNumber d ∧
        Fragment.totalFragments d' = Fragment.totalFragments d ∧
        Fragment.payload d' = Fragment.payload d) := by
  obtain ⟨hsized, hle, rfl⟩ := h.spec
  have hmax : relayMaxHops = 3 := rfl
  have hlen : 16 < d.length := hsized.1
  have hcount := hopsOf_withHops hsized (show hopsOf d + n < 8 by omega)
  refine ⟨by omega, hcount, hcount.le.trans hle, rfl,
    isFragment_withHops hsized.1 _ hsized.2, ?_, ?_⟩
  · intro hf C fast key aesKeys identity rest
    have hlong : 28 ≤ d.length := hsized.2 hf
    have hflags : idxFlags < d.length := by
      simp only [idxFlags]
      omega
    rw [withHops, if_neg (by rw [hf]; decide), Packet.flags_setFlags hflags]
    have happend : ∀ f, Packet.setFlags d f ++ rest = Packet.setFlags (d ++ rest) f :=
      fun f => (splice_append_left (Nat.succ_le_of_lt hflags)).symm
    have hsame : Packet.flags (d ++ rest) = Packet.flags d := byteAt_append_left hflags
    rw [happend]
    -- the MAC does not cover the hop count
    apply Packet.dearmor_setFlags
    · rw [List.length_append]
      exact Nat.le_add_right_of_le hlong
    · rw [hsame]
      have hbits : ∀ m : Fin 8, ∀ b : BitVec 8,
          ((UInt8.ofBitVec b &&& 0xf8) ||| UInt8.ofNat m.val) &&& 0xf8
            = UInt8.ofBitVec b &&& 0xf8 := by
        decide +kernel
      exact hbits ⟨hopsOf d + n, by omega⟩ (Packet.flags d).toBitVec
  · intro hf
    have hin : idxFragmentHops < d.length := by
      simp only [idxFragmentHops]
      omega
    -- the hop count of a fragment stands behind its number
    have hnumber : byteAt (setByte d idxFragmentHops (UInt8.ofNat (hopsOf d + n))) idxFragmentNo
        = byteAt d idxFragmentNo :=
          byteAt_splice_disjoint (Nat.succ_le_of_lt hin) (.inl (by decide))
    rw [withHops, if_pos hf]
    refine ⟨?_, ?_, ?_, ?_⟩
    · rw [Fragment.packetId, Fragment.packetId, slice_setByte_disjoint hin (.inl (by decide))]
    · rw [Fragment.fragmentNumber, hnumber, Fragment.fragmentNumber]
    · rw [Fragment.totalFragments, hnumber, Fragment.totalFragments]
    · have hsplit :
        (setByte d idxFragmentHops (UInt8.ofNat (hopsOf d + n))).drop 16 = d.drop 16 := by
        have hfront : (d.take 15 ++ [UInt8.ofNat (hopsOf d + n)]).length = 16 := by
          rw [List.length_append, List.length_take, List.length_singleton]
          omega
        rw [setByte, splice]
        exact List.drop_left' hfront
      exact hsplit

end Forward

/-- A datagram at a node that relays and has a path to everyone. -/
def relayArrival (d : Bytes) : Arrival Unit Unit :=
  { loneArrival () d with
    amUpstream := true, getPeer := fun _ => some (), sendDirect := fun _ _ _ => true }

/-- A packet of the nobody at address zero to itself. -/
def nobodysPacket : Bytes := List.replicate 28 0

/-- The packet passes two relays, which have the addresses one and two. -/
theorem nobodysPacket_relayed :
    2 ≤ relayMaxHops ∧ hopsOf (withHops nobodysPacket 2) = hopsOf nobodysPacket + 2 := by
  have hfirst : Relayed Unit Unit nobodysPacket (withHops nobodysPacket 1) := by
    refine ⟨1, startedSwitch, relayArrival nobodysPacket, (), false, rfl, ?_⟩
    exact List.mem_cons_self
  have hsecond : Relayed Unit Unit (withHops nobodysPacket 1) (withHops nobodysPacket 2) := by
    refine ⟨2, startedSwitch, relayArrival (withHops nobodysPacket 1), (), false, rfl, ?_⟩
    exact List.mem_cons_self
  have h := relaying_bounded (.again (.once hfirst) hsecond)
  exact ⟨h.1, h.2.1⟩

end ZGalaxy
