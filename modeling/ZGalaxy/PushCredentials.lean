/-
ZGalaxy/PushCredentials.lean

Pushing one's credentials to another member.

Credentials go out in as many packets as it takes.  The first packet begins with the certificate of
membership, and each has three counted rows with as many capabilities, tags and certificates of
ownership as there is room for; a row of revocations between them is always empty.  Room is measured
by the size that an object has in memory, which is more than any of them takes when it is written.
The number of a row stands before it and is put there afterwards.

Whatever there is to send, a packet takes at least one credential (`pack_ok`), so the loop ends
(`pushTurns_ok`).

Main result: `pushed_iff`, that the packets, in whatever order they arrive, have every credential
once and as it was exactly when no rule of a capability gives a bucket.
-/
import ZGalaxy.Composing
import ZGalaxy.CredentialWriters
import ZGalaxy.CredentialsPacket

namespace ZGalaxy

open ByteList Buffer

/-- `Packet::VERB_NETWORK_CREDENTIALS`. -/
def verbNetworkCredentials : UInt8 := 0x0a

/-- `sizeof(Capability)`, where addresses of memory have 64 bits. -/
def sizeofCapability : ℕ := 2864

/-- `sizeof(Tag)`. -/
def sizeofTag : ℕ := 136

/-- `sizeof(CertificateOfOwnership)`. -/
def sizeofCertificateOfOwnership : ℕ := 416

/-- `Buffer::setAt`, in a packet. -/
def Packet.setAt (p : Bytes) (i : ℕ) (v : Bytes) : Except ZTException Bytes :=
  if p.length < i + v.length then .error .outOfBounds else .ok (splice p i v)

/-- Credentials to send, or in a packet. -/
structure CredentialSet where
  com : Option CertificateOfMembership
  capabilities : List Capability
  tags : List Tag
  coos : List CertificateOfOwnership

/-! ### Packing -/

section Packing

variable {α : Type} (size : ℕ) (serialize : α → Bytes)

/-- One of the inner loops: what it appends to the packet, how many, and what is left. -/
def fillRow : List α → Bytes → Except ZTException (Bytes × ℕ × List α)
  | [], p => .ok (p, 0, [])
  | x :: xs, p =>
      if p.length + size + 16 < protoMaxPacketLength then do
        let p ← Packet.append p (serialize x)
        let r ← fillRow xs p
        pure (r.1, r.2.1 + 1, r.2.2)
      else .ok (p, 0, x :: xs)

/-- A row with its number.  What `addSize` leaves at the place of the number is replaced by it. -/
def countedRow (xs : List α) (p : Bytes) : Except ZTException (Bytes × List α) := do
  let countAt := p.length
  let p ← Packet.append p [0, 0]
  let r ← fillRow size serialize xs p
  let p ← Packet.setAt r.1 countAt (beBytes 2 r.2.1)
  pure (p, r.2.2)

end Packing

namespace CredentialSet

/-- There is something to send. -/
def pending (s : CredentialSet) : Bool :=
  !s.capabilities.isEmpty || !s.tags.isEmpty || !s.coos.isEmpty || s.com.isSome

/-- A packet that begins as `outp`, and what is left. -/
def pack (s : CredentialSet) (outp : Bytes) : Except ZTException (Bytes × CredentialSet) := do
  let outp ← Packet.append outp ((s.com.map CertificateOfMembership.serialize).getD [])
  let outp ← Packet.append outp [0]
  let caps ← countedRow sizeofCapability Capability.serialize s.capabilities outp
  let tags ← countedRow sizeofTag Tag.serialize s.tags caps.1
  let outp ← Packet.append tags.1 (beBytes 2 0)
  let coos ← countedRow sizeofCertificateOfOwnership CertificateOfOwnership.serialize s.coos outp
  pure (coos.1, ⟨none, caps.2, tags.2, coos.2⟩)

end CredentialSet

section Push

-- what compresses, the packet ids and what is left of the MACs, and who pushes to whom
variable (lz4 : Bytes → Bytes) (iv mac : ℕ → BitVec 64) (me peer : Address)

/-- The loop after `n` packets, unless it takes more than `fuel` turns. -/
def pushTurns : (fuel n : ℕ) → CredentialSet → Option (Except ZTException (List Bytes))
  | 0, _, _ => none
  | fuel + 1, n, s =>
      if s.pending then
        match s.pack (Packet.reset (iv n) (mac n) peer me verbNetworkCredentials) with
        | .error e => some (.error e)
        | .ok r => (pushTurns fuel (n + 1) r.2).map (Except.map (Packet.compress lz4 r.1 :: ·))
      else some (.ok [])

/-- What `pushCredentials` sends of a configuration. -/
def NetworkConfig.credentials (nconf : NetworkConfig) : CredentialSet where
  com := if nconf.com.isSet then some nconf.com else Option.none
  capabilities := nconf.capabilities
  tags := nconf.tags
  coos := nconf.certificatesOfOwnership

/-- `Membership::pushCredentials`: the packets that are sent.  The arrays of pointers that it begins
with have room for what a configuration has at most. -/
def pushCredentials (nconf : NetworkConfig) (fuel : ℕ) : Option (Except ZTException (List Bytes)) :=
  pushTurns lz4 iv mac me peer fuel 0 nconf.credentials

end Push

/-! ### What a row takes -/

section Rows

variable {α : Type} {size bound : ℕ} {serialize : α → Bytes} {xs : List α} {p : Bytes}

/-- A row as it stands in a packet. -/
def rowBytes (serialize : α → Bytes) (xs : List α) : Bytes :=
  beBytes 2 xs.length ++ xs.flatMap serialize

/-- **The inner loop** appends a part of the objects, within what it found room for, and at least
one if there was room at the beginning. -/
theorem fillRow_ok (hbound : ∀ x ∈ xs, (serialize x).length ≤ bound) (hsize : bound ≤ size + 16)
    (hp : p.length ≤ protoMaxPacketLength) :
    ∃ now later, xs = now ++ later ∧
      fillRow size serialize xs p = .ok (p ++ now.flatMap serialize, now.length, later) ∧
        (p ++ now.flatMap serialize).length ≤
          max p.length (protoMaxPacketLength - size - 17 + bound) ∧
            (xs ≠ [] → p.length + size + 16 < protoMaxPacketLength → now ≠ []) := by
  -- on the credentials still to be sent: the packet grows while there is room
  induction xs generalizing p with
  | nil =>
      refine ⟨[], [], rfl, ?_, ?_, fun h => absurd rfl h⟩
      · rw [List.flatMap_nil, List.append_nil]
        rfl
      · rw [List.flatMap_nil, List.append_nil]
        exact le_max_left _ _
  | cons x xs ih =>
      have hx := hbound x List.mem_cons_self
      by_cases hroom : p.length + size + 16 < protoMaxPacketLength
      · have hlength : (p ++ serialize x).length = p.length + (serialize x).length :=
          List.length_append
        obtain ⟨now, later, rfl, hfill, hfits, -⟩ :=
          ih (p := p ++ serialize x) (fun y hy => hbound y (List.mem_cons_of_mem x hy)) (by omega)
        have hassoc : p ++ (x :: now).flatMap serialize =
            p ++ serialize x ++ now.flatMap serialize := by
          rw [List.flatMap_cons, List.append_assoc]
        refine ⟨x :: now, later, rfl, ?_, ?_, fun _ _ => List.cons_ne_nil x now⟩
        · rw [fillRow, if_pos hroom, hassoc]
          refine bind_ok.mpr ⟨_, Packet.append_of_le (by omega), bind_ok.mpr ⟨_, hfill, rfl⟩⟩
        · rw [hassoc]
          omega
      · refine ⟨[], x :: xs, rfl, ?_, ?_, fun _ h => absurd h hroom⟩
        · rw [fillRow, if_neg hroom, List.flatMap_nil, List.append_nil]
          rfl
        · rw [List.flatMap_nil, List.append_nil]
          exact le_max_left _ _

/-- **A row** is appended with its number. -/
theorem countedRow_ok (size bound : ℕ) (serialize : α → Bytes) {xs : List α} {p : Bytes}
    (hbound : ∀ x ∈ xs, (serialize x).length ≤ bound) (hsize : bound ≤ size + 16)
    (hp : p.length + 2 ≤ protoMaxPacketLength) :
    ∃ now later, xs = now ++ later ∧
      countedRow size serialize xs p = .ok (p ++ rowBytes serialize now, later) ∧
        (p ++ rowBytes serialize now).length ≤
          max (p.length + 2) (protoMaxPacketLength - size - 17 + bound) ∧
            (xs ≠ [] → p.length + 2 + size + 16 < protoMaxPacketLength → now ≠ []) := by
  have hlength : (p ++ [0, 0]).length = p.length + 2 := List.length_append
  obtain ⟨now, later, hxs, hfill, hfits, hprogress⟩ :=
    fillRow_ok (p := p ++ [0, 0]) hbound hsize (by omega)
  have hset : splice (p ++ [0, 0] ++ now.flatMap serialize) p.length (beBytes 2 now.length) =
      p ++ rowBytes serialize now := by
    rw [rowBytes, List.append_assoc]
    exact splice_middle rfl (length_beBytes 2 _)
  have hsame : (p ++ rowBytes serialize now).length =
      (p ++ [0, 0] ++ now.flatMap serialize).length := by
    rw [rowBytes, List.length_append, List.length_append, length_beBytes, List.length_append,
      hlength]
    omega
  rw [hlength] at hfits hprogress
  refine ⟨now, later, hxs, ?_, by omega, hprogress⟩
  refine bind_ok.mpr ⟨_, Packet.append_of_le (by rw [← List.length_append, hlength]; exact hp),
    bind_ok.mpr ⟨_, hfill, bind_ok.mpr ⟨_, (if_neg ?_).trans (congrArg _ hset), rfl⟩⟩⟩
  rw [length_beBytes, List.length_append, hlength]
  omega

/-- A row of objects that take at least a byte has no more of them than the packet has bytes. -/
theorem length_le_rowBytes (hpos : ∀ x ∈ xs, 1 ≤ (serialize x).length) :
    xs.length ≤ (rowBytes serialize xs).length := by
  have hflat : xs.length ≤ (xs.flatMap serialize).length := by
    induction xs with
    | nil => exact Nat.zero_le _
    | cons x xs ih =>
        have hx := hpos x List.mem_cons_self
        have hrest := ih fun y hy => hpos y (List.mem_cons_of_mem x hy)
        rw [List.flatMap_cons, List.length_append, List.length_cons]
        omega
  rw [rowBytes, List.length_append]
  omega

end Rows

/-! ### What a credential takes -/

section Sizes

theorem CertificateOfMembership.length_serialize_le {com : CertificateOfMembership}
    (h : com.WellFormed) : com.serialize.length ≤ 296 := by
  have hcount := h.count
  have hmax : comMaxQualifiers = 8 := rfl
  have hqualifiers : (com.qualifiers.flatMap qualifierBytes).length ≤ 24 * com.qualifiers.length :=
    length_flatMap_le fun q _ => by
      rw [qualifierBytes, List.length_append, List.length_append, length_beBytes, length_beBytes,
        length_beBytes]
  have hsignature : (if com.signedBy.isSet then com.signature else []).length ≤ 96 := by
    have hlength := h.signature
    split_ifs at hlength ⊢
    · exact hlength.le
    · exact Nat.zero_le _
  have haddress : addressLength = 5 := rfl
  rw [serialize]
  simp only [List.length_append, length_beBytes, Address.length_toBytes, List.length_singleton]
  omega

theorem length_signatureBytes {signature : Bytes} (h : signature.length = eccSignatureLen) :
    (signatureBytes signature).length = 99 := by
  rw [signatureBytes, List.length_append, List.length_append, length_beBytes, h]
  rfl

theorem length_networkIdBytes (nwid : NetworkId) : (networkIdBytes nwid).length = 8 :=
  length_beBytes 8 _

theorem length_timestampBytes (ts : Int64) : (timestampBytes ts).length = 8 := length_beBytes 8 _

theorem Tag.length_serialize {t : Tag} (h : t.signature.length = eccSignatureLen) :
    t.serialize.length = 135 := by
  rw [serialize]
  simp only [List.length_append, length_beBytes, Address.length_toBytes, length_networkIdBytes,
    length_timestampBytes, length_signatureBytes h]
  rfl

theorem CertificateOfOwnership.length_serialize_le {coo : CertificateOfOwnership}
    (h : coo.WellFormed) : coo.serialize.length ≤ 413 := by
  have hcount := h.count
  have hmax : maxThings = 16 := rfl
  have hthing : ∀ thing, (thingBytes thing).length ≤ 17 := by
    intro thing
    rw [thingBytes, List.length_append, length_beBytes, List.length_singleton]
  have hthings : (coo.things.flatMap thingBytes).length ≤ 17 * coo.things.length :=
    length_flatMap_le fun thing _ => hthing thing
  have hlength : coo.serialize.length = 8 + (8 + (8 + (4 + (2 +
      ((coo.things.flatMap thingBytes).length + (5 + (5 + (99 + 2)))))))) := by
    rw [serialize]
    simp only [List.length_append, length_beBytes, Address.length_toBytes, length_networkIdBytes,
      length_timestampBytes, length_signatureBytes h.signature]
    rfl
  rw [hmax] at hcount
  rw [hlength]
  omega

theorem fieldWidths_sum_le {rt : ℕ} (h : rt < 64) : (fieldWidths rt).sum ≤ 19 := by
  revert rt
  decide

theorem length_serializeRule_le (r : Rule) : (serializeRule r).length ≤ 21 := by
  have hsum := fieldWidths_sum_le r.body.type_lt
  rw [← r.body.map_fst_fields, ← length_beFields] at hsum
  rw [serializeRule, List.length_cons, List.length_cons]
  omega

theorem Capability.length_serialize_le {cap : Capability} (h : cap.WellFormed) :
    cap.serialize.length ≤ 2137 := by
  have hmaxRules : maxCapabilityRules = 64 := rfl
  have hmaxChain : maxCapabilityCustodyChainLength = 7 := rfl
  have hrules : (serializeRules cap.rules).length ≤ 21 * cap.rules.length := by
    rw [serializeRules_eq]
    refine (length_flatMap_le fun c hc => ?_).trans_eq (by rw [List.length_map])
    obtain ⟨r, -, rfl⟩ := List.mem_map.mp hc
    exact length_serializeRule_le r
  have hcount := cap.rules_le
  have hchain : (cap.holders.flatMap custodyBytes).length ≤ 109 * cap.holders.length :=
    length_flatMap_le fun c hc => by
      rw [custodyBytes, List.length_append, List.length_append, Address.length_toBytes,
        Address.length_toBytes, length_signatureBytes (h.signatures c hc)]
      decide
  have hholders := cap.length_holders
  have hle := h.le_max
  have haddress : addressLength = 5 := rfl
  rw [serialize]
  simp only [List.length_append, length_beBytes, Address.length_toBytes, length_networkIdBytes,
    length_timestampBytes, List.length_singleton]
  omega

end Sizes

/-! ### One packet -/

namespace CredentialSet

/-- The credentials have the sizes that the fields of their classes have. -/
structure WellFormed (s : CredentialSet) : Prop where
  com : ∀ com, s.com = some com → com.isSet = true ∧ com.WellFormed
  capabilities : ∀ cap ∈ s.capabilities, cap.WellFormed
  tags : ∀ t ∈ s.tags, t.signature.length = eccSignatureLen
  coos : ∀ coo ∈ s.coos, coo.WellFormed

/-- The payload of a packet with these credentials. -/
def payload (s : CredentialSet) : Bytes :=
  (s.com.map CertificateOfMembership.serialize).getD [] ++ ([0] ++
    (rowBytes Capability.serialize s.capabilities ++ (rowBytes Tag.serialize s.tags ++
      (beBytes 2 0 ++ rowBytes CertificateOfOwnership.serialize s.coos))))

/-- How much there is to send. -/
def weight (s : CredentialSet) : ℕ :=
  s.capabilities.length + s.tags.length + s.coos.length + if s.com.isSome then 1 else 0

/-- `s` is split into what a packet has and what is left. -/
structure Split (s now later : CredentialSet) : Prop where
  com : now.com = s.com
  rest : later.com = none
  capabilities : s.capabilities = now.capabilities ++ later.capabilities
  tags : s.tags = now.tags ++ later.tags
  coos : s.coos = now.coos ++ later.coos

theorem Split.wellFormed {s now later : CredentialSet} (h : s.Split now later) (hs : s.WellFormed) :
    now.WellFormed ∧ later.WellFormed := by
  obtain ⟨hcom, hcaps, htags, hcoos⟩ := hs
  rw [h.capabilities] at hcaps
  rw [h.tags] at htags
  rw [h.coos] at hcoos
  refine ⟨⟨fun com hc => hcom com (h.com.symm.trans hc), ?_, ?_, ?_⟩, ⟨?_, ?_, ?_, ?_⟩⟩
  · exact fun cap hcap => hcaps cap (List.mem_append_left _ hcap)
  · exact fun t ht => htags t (List.mem_append_left _ ht)
  · exact fun coo hcoo => hcoos coo (List.mem_append_left _ hcoo)
  · intro com hc
    rw [h.rest] at hc
    cases hc
  · exact fun cap hcap => hcaps cap (List.mem_append_right _ hcap)
  · exact fun t ht => htags t (List.mem_append_right _ ht)
  · exact fun coo hcoo => hcoos coo (List.mem_append_right _ hcoo)

theorem room_of_le {n m size : ℕ} (h : n ≤ m) (hm : m + 2 + size + 16 < protoMaxPacketLength) :
    n + 2 + size + 16 < protoMaxPacketLength := by
  omega

/-- **One packet** takes a part of what there is to send, fits, and takes something. -/
theorem pack_ok {s : CredentialSet} (hs : s.WellFormed) {outp : Bytes}
    (hlength : outp.length = protoMinPacketLength) :
    ∃ now later : CredentialSet, s.Split now later ∧
      s.pack outp = .ok (outp ++ now.payload, later) ∧
        (outp ++ now.payload).length ≤ protoMaxPacketLength ∧
          (s.pending = true → later.weight < s.weight) := by
  obtain ⟨com, capabilities, tags, coos⟩ := s
  set comBytes := (com.map CertificateOfMembership.serialize).getD [] with hcomBytes
  have hcom : comBytes.length ≤ 296 := by
    rcases com with - | com
    · exact Nat.zero_le _
    · exact CertificateOfMembership.length_serialize_le (hs.com com rfl).2
  have hstart : (outp ++ comBytes ++ [0]).length ≤ 325 := by
    rw [List.length_append, List.length_append, hlength, List.length_singleton]
    show 28 + comBytes.length + 1 ≤ 325
    omega
  -- each row leaves room for what comes after it
  obtain ⟨caps, capsLater, hcaps, hcapsRow, hcapsFits, hcapsProgress⟩ :=
    countedRow_ok sizeofCapability 2137 Capability.serialize (p := outp ++ comBytes ++ [0])
      (fun cap hcap => Capability.length_serialize_le (hs.capabilities cap hcap))
      (by decide) ((Nat.add_le_add_right hstart 2).trans (by decide))
  set p₁ := outp ++ comBytes ++ [0] ++ rowBytes Capability.serialize caps with hp₁
  have hlength₁ : p₁.length ≤ 9280 :=
    hcapsFits.trans (max_le ((Nat.add_le_add_right hstart 2).trans (by decide)) (by decide))
  obtain ⟨tags', tagsLater, htags, htagsRow, htagsFits, htagsProgress⟩ :=
    countedRow_ok sizeofTag 135 Tag.serialize (p := p₁)
      (fun t ht => (Tag.length_serialize (hs.tags t ht)).le)
      (by decide) ((Nat.add_le_add_right hlength₁ 2).trans (by decide))
  set p₂ := p₁ ++ rowBytes Tag.serialize tags' with hp₂
  have hlength₂ : p₂.length ≤ 10006 :=
    htagsFits.trans (max_le ((Nat.add_le_add_right hlength₁ 2).trans (by decide)) (by decide))
  have hlength₃ : (p₂ ++ beBytes 2 0).length ≤ 10008 := by
    rw [List.length_append, length_beBytes]
    exact Nat.add_le_add_right hlength₂ 2
  obtain ⟨coos', coosLater, hcoos, hcoosRow, hcoosFits, hcoosProgress⟩ :=
    countedRow_ok sizeofCertificateOfOwnership 413 CertificateOfOwnership.serialize
      (p := p₂ ++ beBytes 2 0)
      (fun coo hcoo => CertificateOfOwnership.length_serialize_le (hs.coos coo hcoo))
      (by decide) ((Nat.add_le_add_right hlength₃ 2).trans (by decide))
  have hpayload : p₂ ++ beBytes 2 0 ++ rowBytes CertificateOfOwnership.serialize coos' =
      outp ++ (⟨com, caps, tags', coos'⟩ : CredentialSet).payload := by
    rw [hp₂, hp₁]
    simp only [payload, List.append_assoc, ← hcomBytes]
  refine ⟨⟨com, caps, tags', coos'⟩, ⟨none, capsLater, tagsLater, coosLater⟩,
    ⟨rfl, rfl, hcaps, htags, hcoos⟩, ?_, ?_, ?_⟩
  · rw [← hpayload]
    have happend : Packet.append p₂ (beBytes 2 0) = .ok (p₂ ++ beBytes 2 0) :=
      Packet.append_of_le (by rw [← List.length_append]; exact hlength₃.trans (by decide))
    have hsep : Packet.append (outp ++ comBytes) [0] = .ok (outp ++ comBytes ++ [0]) :=
      Packet.append_of_le (by rw [← List.length_append]; exact hstart.trans (by decide))
    have hfirst : Packet.append outp comBytes = .ok (outp ++ comBytes) := by
      refine Packet.append_of_le (le_trans ?_ (hstart.trans (by decide)))
      rw [List.length_append, List.length_append]
      exact Nat.le_add_right _ _
    exact bind_ok.mpr ⟨_, hfirst, bind_ok.mpr ⟨_, hsep, bind_ok.mpr ⟨_, hcapsRow,
      bind_ok.mpr ⟨_, htagsRow, bind_ok.mpr ⟨_, happend, bind_ok.mpr ⟨_, hcoosRow, rfl⟩⟩⟩⟩⟩⟩
  · rw [← hpayload]
    exact hcoosFits.trans (max_le ((Nat.add_le_add_right hlength₃ 2).trans (by decide)) (by decide))
  · intro hpending
    have hweight : (⟨none, capsLater, tagsLater, coosLater⟩ : CredentialSet).weight =
        capsLater.length + tagsLater.length + coosLater.length := rfl
    have hweight' : (⟨com, capabilities, tags, coos⟩ : CredentialSet).weight =
        caps.length + capsLater.length + (tags'.length + tagsLater.length) +
          (coos'.length + coosLater.length) + if com.isSome then 1 else 0 := by
      rw [weight, hcaps, htags, hcoos, List.length_append, List.length_append, List.length_append]
    rw [hweight, hweight']
    by_cases hnoCaps : capabilities = []
    · by_cases hnoTags : tags = []
      · by_cases hnoCoos : coos = []
        · -- there is only the certificate of membership
          subst hnoCaps hnoTags hnoCoos
          have hsome : com.isSome = true := hpending
          rw [if_pos hsome]
          omega
        · -- without tags there is room for a certificate of ownership
          have htags₀ : tags' = [] := (List.append_eq_nil_iff.mp (htags.symm.trans hnoTags)).1
          have hlengthTags : p₂.length = p₁.length + 2 := by
            rw [hp₂, List.length_append, htags₀, rowBytes, List.flatMap_nil, List.append_nil,
              length_beBytes]
          have hroom : (p₂ ++ beBytes 2 0).length + 2 + sizeofCertificateOfOwnership + 16 <
              protoMaxPacketLength := by
            refine room_of_le (m := 9284) ?_ (by decide)
            rw [List.length_append, length_beBytes, hlengthTags]
            exact Nat.add_le_add_right hlength₁ 4
          have htaken := List.length_pos_of_ne_nil (hcoosProgress hnoCoos hroom)
          omega
      · have hroom : p₁.length + 2 + sizeofTag + 16 < protoMaxPacketLength :=
          room_of_le hlength₁ (by decide)
        have htaken := List.length_pos_of_ne_nil (htagsProgress hnoTags hroom)
        omega
    · have hroom : (outp ++ comBytes ++ [0]).length + 2 + sizeofCapability + 16 <
          protoMaxPacketLength := room_of_le hstart (by decide)
      have htaken := List.length_pos_of_ne_nil (hcapsProgress hnoCaps hroom)
      omega

/-- The credentials, in the order of a packet. -/
def list (s : CredentialSet) : List PacketCredential :=
  (s.com.map PacketCredential.com).toList ++ (s.capabilities.map PacketCredential.capability ++
    (s.tags.map PacketCredential.tag ++ s.coos.map PacketCredential.coo))

/-- The credentials as they are read back. -/
def wire (s : CredentialSet) : CredentialSet :=
  { s with capabilities := s.capabilities.map Capability.wire }

theorem Split.perm {s now later : CredentialSet} (h : s.Split now later) :
    s.list.Perm (now.list ++ later.list) := by
  rw [List.perm_iff_count]
  intro c
  simp only [list, h.com, h.rest, h.capabilities, h.tags, h.coos, List.count_append,
    List.map_append, Option.map_none, Option.toList_none, List.nil_append]
  omega

theorem Split.wire {s now later : CredentialSet} (h : s.Split now later) :
    s.wire.Split now.wire later.wire where
  com := h.com
  rest := h.rest
  capabilities := (congrArg _ h.capabilities).trans List.map_append
  tags := h.tags
  coos := h.coos

end CredentialSet

/-! ### Reading a packet -/

/-- **A row is read back**, one credential after another. -/
theorem readRow_readsBack {read : Reader ZTException PacketCredential}
    {row : List (PacketCredential × Bytes)}
    (h : ∀ c ∈ row, Reader.ReadsBack read c.1 c.2) (a rest : Bytes) :
    readRow read (a ++ (row.flatMap Prod.snd ++ rest)) row.length a.length =
      (row.map Prod.fst, some (a.length + (row.flatMap Prod.snd).length)) := by
  induction row generalizing a with
  | nil => rfl
  | cons c row ih =>
      have hc := h c List.mem_cons_self a (row.flatMap Prod.snd ++ rest)
      have hrest := ih (fun c' hc' => h c' (List.mem_cons_of_mem c hc')) (a ++ c.2)
      rw [List.append_assoc, List.length_append] at hrest
      rw [List.flatMap_cons, List.append_assoc, List.length_cons, readRow, hc]
      dsimp only
      rw [hrest, List.map_cons, List.length_append, Nat.add_assoc]

/-- A row that is read, with its number. -/
def numbered (row : List (PacketCredential × Bytes)) : Bytes :=
  beBytes 2 row.length ++ row.flatMap Prod.snd

theorem length_lt_append (a : Bytes) {b : Bytes} (h : 0 < b.length) (c : Bytes) :
    a.length < (a ++ (b ++ c)).length := by
  rw [List.length_append, List.length_append]
  omega

/-- **Rows are read back** until the end of the packet. -/
theorem readRows_readsBack
    (rows : List (Reader ZTException PacketCredential × List (PacketCredential × Bytes)))
    (h : ∀ x ∈ rows, (∀ c ∈ x.2, Reader.ReadsBack x.1 c.1 c.2) ∧ x.2.length < 65536) (a : Bytes) :
    readRows (a ++ rows.flatMap fun x => numbered x.2) (rows.map Prod.fst) a.length =
      (rows.flatMap fun x => x.2.map Prod.fst, Ending.whole) := by
  induction rows generalizing a with
  | nil => rfl
  | cons x rows ih =>
      obtain ⟨hread, hcount⟩ := h x List.mem_cons_self
      have hrest := ih (fun y hy => h y (List.mem_cons_of_mem x hy)) (a ++ numbered x.2)
      set rest := rows.flatMap fun x => numbered x.2 with hrestBytes
      have hbytes : a ++ (x :: rows).flatMap (fun x => numbered x.2) =
          a ++ (beBytes 2 x.2.length ++ (x.2.flatMap Prod.snd ++ rest)) := by
        rw [List.flatMap_cons, numbered, List.append_assoc]
      have hnumber : Buffer.uintAt 2 (a ++ (beBytes 2 x.2.length ++ (x.2.flatMap Prod.snd ++ rest)))
          a.length = .ok x.2.length := uintAt_at rfl rfl (by omega)
      have hrow := readRow_readsBack hread (a ++ beBytes 2 x.2.length) rest
      rw [List.append_assoc, List.length_append, length_beBytes] at hrow
      rw [hbytes, List.map_cons, readRows, hnumber]
      dsimp only
      rw [hrow]
      dsimp only
      have hnext : a.length + 2 + (x.2.flatMap Prod.snd).length = (a ++ numbered x.2).length := by
        rw [numbered, List.length_append, List.length_append, length_beBytes, Nat.add_assoc]
      have hsame : a ++ (beBytes 2 x.2.length ++ (x.2.flatMap Prod.snd ++ rest)) =
          a ++ numbered x.2 ++ rest := by
        rw [numbered, List.append_assoc, List.append_assoc]
      rw [if_neg, hnext, hsame, hrest, List.flatMap_cons]
      rintro ⟨hmore, hend⟩
      -- the number of the next row follows
      rcases rows with - | ⟨y, rows⟩
      · exact hmore rfl
      · have hnumberBytes : 0 < (numbered y.2).length := by
          rw [numbered, List.length_append, length_beBytes]
          exact Nat.lt_of_lt_of_le Nat.two_pos (Nat.le_add_right 2 _)
        rw [hnext, hsame, hrestBytes, List.flatMap_cons] at hend
        exact absurd hend (not_le.mpr (length_lt_append _ hnumberBytes _))

namespace CredentialSet

/-- The rows of a packet, with the bytes of each credential. -/
def rows (s : CredentialSet) :
    List (Reader ZTException PacketCredential × List (PacketCredential × Bytes)) :=
  rowReaders.zip [s.capabilities.map fun cap => (.capability cap.wire, cap.serialize),
    s.tags.map fun t => (.tag t, t.serialize), [],
    s.coos.map fun coo => (.coo coo, coo.serialize)]

theorem flatMap_rows (s : CredentialSet) :
    (s.rows.flatMap fun x => numbered x.2) = rowBytes Capability.serialize s.capabilities ++
      (rowBytes Tag.serialize s.tags ++
        (beBytes 2 0 ++ rowBytes CertificateOfOwnership.serialize s.coos)) := by
  have hrow : ∀ {α : Type} (f : α → PacketCredential) (g : α → Bytes) (xs : List α),
      numbered (xs.map fun x => (f x, g x)) = rowBytes g xs := by
    intro α f g xs
    rw [numbered, rowBytes, List.length_map, List.flatMap_map]
  show numbered _ ++ (numbered _ ++ (numbered [] ++ (numbered _ ++ []))) = _
  rw [hrow, hrow, hrow, List.append_nil]
  rfl

theorem map_fst_rows (s : CredentialSet) :
    (s.rows.flatMap fun x => x.2.map Prod.fst) =
      (s.capabilities.map Capability.wire).map PacketCredential.capability ++
        (s.tags.map PacketCredential.tag ++ s.coos.map PacketCredential.coo) := by
  show (s.capabilities.map _).map _ ++
    ((s.tags.map _).map _ ++ ([] ++ ((s.coos.map _).map _ ++ []))) = _
  rw [List.map_map, List.map_map, List.map_map, List.map_map, List.append_nil]
  rfl

/-- What holds of all the credentials of the rows. -/
theorem forall_rows {s : CredentialSet}
    {P : Reader ZTException PacketCredential → PacketCredential × Bytes → Prop}
    (hcap : ∀ cap ∈ s.capabilities, P (Capability.deserialize >>= fun c => pure (.capability c))
      (.capability cap.wire, cap.serialize))
    (htag : ∀ t ∈ s.tags, P (Tag.deserialize >>= fun c => pure (.tag c)) (.tag t, t.serialize))
    (hcoo : ∀ coo ∈ s.coos, P (CertificateOfOwnership.deserialize >>= fun c => pure (.coo c))
      (.coo coo, coo.serialize)) :
    ∀ x ∈ s.rows, ∀ c ∈ x.2, P x.1 c := by
  intro x hx c hc
  rcases List.mem_cons.mp hx with rfl | hx
  · obtain ⟨cap, hmem, rfl⟩ := List.mem_map.mp hc
    exact hcap cap hmem
  rcases List.mem_cons.mp hx with rfl | hx
  · obtain ⟨t, hmem, rfl⟩ := List.mem_map.mp hc
    exact htag t hmem
  rcases List.mem_cons.mp hx with rfl | hx
  · exact absurd hc List.not_mem_nil
  · obtain rfl := List.mem_singleton.mp hx
    obtain ⟨coo, hmem, rfl⟩ := List.mem_map.mp hc
    exact hcoo coo hmem

/-- Each credential of a row is read back. -/
theorem readsBack_rows {s : CredentialSet} (hs : s.WellFormed) :
    ∀ x ∈ s.rows, ∀ c ∈ x.2, Reader.ReadsBack x.1 c.1 c.2 :=
  forall_rows (P := fun read c => Reader.ReadsBack read c.1 c.2)
    (fun cap h => (Capability.readsBack_deserialize (hs.capabilities cap h)).map
      PacketCredential.capability)
    (fun t h => (Tag.readsBack_deserialize (hs.tags t h)).map PacketCredential.tag)
    (fun coo h => (CertificateOfOwnership.readsBack_deserialize (hs.coos coo h)).map
      PacketCredential.coo)

/-- The number of a row is no more than the bytes of the rows. -/
theorem length_rows_le (s : CredentialSet) :
    ∀ x ∈ s.rows, x.2.length ≤ (s.rows.flatMap fun x => numbered x.2).length := by
  have hpos : ∀ x ∈ s.rows, ∀ c ∈ x.2, 1 ≤ c.2.length := by
    have hprefix : ∀ (nwid : NetworkId) (b : Bytes), 1 ≤ (networkIdBytes nwid ++ b).length := by
      intro nwid b
      rw [List.length_append, length_networkIdBytes]
      omega
    exact forall_rows (P := fun _ c => 1 ≤ c.2.length) (fun cap _ => hprefix _ _)
      (fun t _ => hprefix _ _) (fun coo _ => hprefix _ _)
  intro x hx
  have hrow : x.2.length ≤ (numbered x.2).length :=
    (length_le_rowBytes (hpos x hx)).trans_eq rfl
  refine hrow.trans ?_
  obtain ⟨before, after, hsplit⟩ := List.append_of_mem hx
  rw [hsplit, List.flatMap_append, List.flatMap_cons]
  simp only [List.length_append]
  omega

theorem byteAt_at (a : Bytes) (x : UInt8) (c : Bytes) : byteAt (a ++ ([x] ++ c)) a.length = x := by
  simp [byteAt]

/-- The certificates end at the zero byte. -/
theorem readComs_zero {b : Bytes} {n pos : ℕ} (h : byteAt b pos = 0) :
    readComs b n pos = ([], some pos) := by
  cases n with
  | zero => rfl
  | succ n => exact if_neg fun hmore => hmore.2 h

/-- **A packet is read back**, to its end. -/
theorem readCredentials_payload {s : CredentialSet} (hs : s.WellFormed)
    (hcounts : ∀ x ∈ s.rows, x.2.length < 65536) {a : Bytes}
    (ha : a.length = protoMinPacketLength) :
    readCredentials (a ++ s.payload) = (s.wire.list, Ending.whole) := by
  set rest := rowBytes Capability.serialize s.capabilities ++ (rowBytes Tag.serialize s.tags ++
    (beBytes 2 0 ++ rowBytes CertificateOfOwnership.serialize s.coos)) with hrest
  set comBytes := (s.com.map CertificateOfMembership.serialize).getD [] with hcomBytes
  have hpayload : a ++ s.payload = a ++ comBytes ++ ([0] ++ rest) := by
    rw [payload, List.append_assoc]
  have hrestLength : 0 < rest.length := by
    rw [hrest, rowBytes, List.length_append, List.length_append, length_beBytes]
    omega
  -- a null byte ends the certificates of membership
  have hzero : ∀ n, readComs (a ++ s.payload) n (a ++ comBytes).length =
      ([], some (a ++ comBytes).length) := by
    intro n
    rw [hpayload]
    exact readComs_zero (byteAt_at _ 0 rest)
  have hcoms : readComs (a ++ s.payload) (a ++ s.payload).length protoMinPacketLength =
      ((s.com.map PacketCredential.com).toList, some (a ++ comBytes).length) := by
    rcases hcom : s.com with - | com
    · have hnil : comBytes = [] := by
        rw [hcomBytes, hcom]
        rfl
      have hstart := hzero (a ++ s.payload).length
      rw [hnil, List.append_nil, ha] at hstart
      rw [hnil, List.append_nil, ha, hstart]
      rfl
    · obtain ⟨hset, hwf⟩ := hs.com com hcom
      have hbytes : comBytes = com.serialize := by
        rw [hcomBytes, hcom]
        rfl
      have hsplit : a ++ s.payload = a ++ (com.serialize ++ ([0] ++ rest)) := by
        rw [hpayload, hbytes, List.append_assoc]
      have hread := CertificateOfMembership.readsBack_deserialize hwf a ([0] ++ rest)
      have hbyte : byteAt (a ++ s.payload) a.length = 1 := by
        rw [hsplit, CertificateOfMembership.serialize, List.append_assoc]
        exact byteAt_at a 1 _
      rw [← hsplit, ← List.length_append, ← hbytes] at hread
      have hpos : a.length < (a ++ s.payload).length := by
        rw [hsplit, ← hbytes]
        simp only [List.length_append, List.length_singleton]
        omega
      obtain ⟨n, hn⟩ := Nat.exists_eq_succ_of_ne_zero (Nat.ne_zero_of_lt hpos)
      rw [← ha, hn, readComs, if_pos ⟨hpos, by rw [hbyte]; decide⟩, hread]
      dsimp only
      rw [hzero n, if_pos hset]
      rfl
  -- the counted rows follow it
  have hrows := readRows_readsBack s.rows (fun x hx => ⟨readsBack_rows hs x hx, hcounts x hx⟩)
    (a ++ comBytes ++ [0])
  rw [flatMap_rows, map_fst_rows, ← hrest, List.append_assoc (a ++ comBytes), ← hpayload,
    List.length_append, List.length_singleton] at hrows
  have hreaders : s.rows.map Prod.fst = rowReaders := rfl
  rw [hreaders] at hrows
  have hmore : (a ++ comBytes).length + 1 < (a ++ s.payload).length := by
    rw [hpayload]
    simp only [List.length_append, List.length_singleton]
    omega
  rw [readCredentials, hcoms]
  dsimp only
  rw [if_pos hmore, hrows]
  rfl

end CredentialSet

/-! ### The loop -/

section Loop

variable {lz4 : Bytes → Bytes} {iv mac : ℕ → BitVec 64} {me peer : Address}

/-- A packet that was sent has the credentials `now`. -/
structure SentSet (lz4 : Bytes → Bytes) (iv mac : ℕ → BitVec 64) (me peer : Address) (q : Bytes)
    (now : CredentialSet) : Prop where
  wellFormed : now.WellFormed
  composed : ∃ n, q = Packet.compress lz4
    (Packet.reset (iv n) (mac n) peer me verbNetworkCredentials ++ now.payload)
  fits : protoMinPacketLength + now.payload.length ≤ protoMaxPacketLength

theorem CredentialSet.list_of_not_pending {s : CredentialSet} (h : ¬s.pending = true) :
    s.wire.list = [] := by
  obtain ⟨com, capabilities, tags, coos⟩ := s
  rcases com with - | com
  · rcases capabilities with - | ⟨cap, capabilities⟩
    · rcases tags with - | ⟨t, tags⟩
      · rcases coos with - | ⟨coo, coos⟩
        · rfl
        · exact absurd rfl h
      · exact absurd rfl h
    · exact absurd rfl h
  · exact absurd (Bool.or_true _) h

/-- **The loop** ends after packets that have all there is to send. -/
theorem pushTurns_ok (lz4 : Bytes → Bytes) (iv mac : ℕ → BitVec 64) (me peer : Address)
    {s : CredentialSet} (hs : s.WellFormed) (n : ℕ) :
    ∃ fuel sent sets, pushTurns lz4 iv mac me peer fuel n s = some (.ok sent) ∧
      List.Forall₂ (SentSet lz4 iv mac me peer) sent sets ∧
        s.wire.list.Perm (sets.flatMap fun now => now.wire.list) := by
  -- what is left weighs less after each packet
  induction hw : s.weight using Nat.strong_induction_on generalizing s n with
  | _ w ih =>
      by_cases hpending : s.pending = true
      · obtain ⟨now, later, hsplit, hpack, hfits, hless⟩ := CredentialSet.pack_ok hs
          (Packet.length_reset (iv n) (mac n) peer me verbNetworkCredentials)
        obtain ⟨hnow, hlater⟩ := hsplit.wellFormed hs
        obtain ⟨fuel, sent, sets, hturns, hsent, hperm⟩ :=
          ih later.weight (hw ▸ hless hpending) hlater (n + 1) rfl
        rw [List.length_append, Packet.length_reset] at hfits
        refine ⟨fuel + 1, _ :: sent, now :: sets, ?_, .cons ⟨hnow, ⟨n, rfl⟩, hfits⟩ hsent, ?_⟩
        · rw [pushTurns, if_pos hpending, hpack]
          dsimp only
          rw [hturns]
          rfl
        · rw [List.flatMap_cons]
          exact hsplit.wire.perm.trans (hperm.append_left _)
      · refine ⟨1, [], [], ?_, .nil, ?_⟩
        · rw [pushTurns, if_neg hpending]
        · rw [CredentialSet.list_of_not_pending hpending]
          exact .nil

/-- More turns than it takes change nothing. -/
theorem pushTurns_add {fuel n : ℕ} {s : CredentialSet} {r : Except ZTException (List Bytes)}
    (h : pushTurns lz4 iv mac me peer fuel n s = some r) (k : ℕ) :
    pushTurns lz4 iv mac me peer (fuel + k) n s = some r := by
  induction fuel generalizing n s r with
  | zero => cases h
  | succ fuel ih =>
      rw [Nat.succ_add]
      rw [pushTurns] at h ⊢
      by_cases hpending : s.pending = true
      · rw [if_pos hpending] at h ⊢
        rcases hpack : s.pack (Packet.reset (iv n) (mac n) peer me verbNetworkCredentials)
          with e | packed
        · rw [hpack] at h
          exact h
        · rw [hpack] at h
          dsimp only at h ⊢
          obtain ⟨rest, hrest, rfl⟩ := Option.map_eq_some_iff.mp h
          rw [ih hrest]
          rfl
      · rw [if_neg hpending] at h ⊢
        exact h

theorem pushTurns_inj {fuel fuel' n : ℕ} {s : CredentialSet}
    {r r' : Except ZTException (List Bytes)} (h : pushTurns lz4 iv mac me peer fuel n s = some r)
    (h' : pushTurns lz4 iv mac me peer fuel' n s = some r') : r = r' := by
  have hmore := pushTurns_add h fuel'
  rw [Nat.add_comm, pushTurns_add h' fuel] at hmore
  exact (Option.some.inj hmore).symm

end Loop

/-! ### Delivery -/

section Delivery

variable {C : Crypto} (ch : Channel C)

/-- The credentials that `_doNETWORK_CREDENTIALS` reads of what arrives. -/
def decoded (r : Bytes) : List PacketCredential :=
  match Packet.uncompress ch.lz4Decompress r with
  | some d => if Packet.verb d = verbNetworkCredentials then credentialsOf d else []
  | none => []

/-- A credential as it counts: the rules of a capability with the arguments that count. -/
def PacketCredential.canonical : PacketCredential → PacketCredential
  | .capability cap => .capability { cap with
      rules := cap.rules.map Rule.canonical
      rules_le := (List.length_map _).trans_le cap.rules_le }
  | c => c

/-- In whatever order the packets arrive, what is read of them is these credentials, each once. -/
def DeliversOnce (creds : List PacketCredential) (sent : List Bytes) : Prop :=
  ∀ order arrived : List Bytes, order.Perm sent → List.Forall₂ Packet.Same order arrived →
    ((arrived.flatMap (decoded ch)).map PacketCredential.canonical).Perm
      (creds.map PacketCredential.canonical)

/-- Pushing ends without an exception, with packets that fit and deliver every credential once. -/
def PushesAll (iv mac : ℕ → BitVec 64) (me peer : Address) (nconf : NetworkConfig) : Prop :=
  ∃ fuel sent, pushCredentials ch.lz4Compress iv mac me peer nconf fuel = some (.ok sent) ∧
    (∀ q ∈ sent, q.length ≤ protoMaxPacketLength) ∧ DeliversOnce ch nconf.credentials.list sent

variable {ch} {iv mac : ℕ → BitVec 64} {me peer : Address}

/-- **A packet arrives** with the credentials that it was sent with. -/
theorem SentSet.arrives {q : Bytes} {now : CredentialSet}
    (h : SentSet ch.lz4Compress iv mac me peer q now) :
    q.length ≤ protoMaxPacketLength ∧ ∀ r, Packet.Same q r → decoded ch r = now.wire.list := by
  obtain ⟨n, rfl⟩ := h.composed
  have hmark : verbNetworkCredentials &&& Packet.verbFlagCompressed = 0 := by decide
  obtain ⟨hq, harrives⟩ := composed_arrives ch (iv n) (mac n) peer me hmark now.payload h.fits
  refine ⟨hq, fun r hr => ?_⟩
  obtain ⟨d, hd, hverb, hpayload⟩ := harrives r hr
  have hnonempty : 0 < now.payload.length := by
    rw [CredentialSet.payload, List.length_append, List.length_append, List.length_singleton]
    omega
  have htake : (d.take Packet.idxPayload).length = protoMinPacketLength := by
    have hdrop := congrArg List.length hpayload
    rw [List.length_drop] at hdrop
    rw [List.length_take]
    show min 28 d.length = 28
    have hidx : Packet.idxPayload = 28 := rfl
    omega
  have hsplit : d = d.take Packet.idxPayload ++ now.payload := by
    rw [← hpayload, List.take_append_drop]
  have hcounts : ∀ x ∈ now.rows, x.2.length < 65536 := by
    intro x hx
    have hrow := now.length_rows_le x hx
    rw [now.flatMap_rows] at hrow
    have hrows : (rowBytes Capability.serialize now.capabilities ++
        (rowBytes Tag.serialize now.tags ++ (beBytes 2 0 ++
          rowBytes CertificateOfOwnership.serialize now.coos))).length ≤ now.payload.length :=
      ((List.suffix_append _ _).trans (List.suffix_append _ _)).length_le
    have hfits := (hrow.trans hrows).trans ((Nat.le_add_left _ _).trans h.fits)
    exact lt_of_le_of_lt hfits (by decide)
  have hread := CredentialSet.readCredentials_payload h.wellFormed hcounts htake
  rw [← hsplit] at hread
  have hdecoded : decoded ch r = credentialsOf d := by
    rw [decoded, hd]
    exact if_pos hverb
  rw [hdecoded, credentialsOf, hread]

/-- Whatever the order, what is read of the packets is what was sent. -/
theorem decoded_perm {sent : List Bytes} {sets : List CredentialSet}
    (h : List.Forall₂ (SentSet ch.lz4Compress iv mac me peer) sent sets)
    {order arrived : List Bytes} (horder : order.Perm sent)
    (harrived : List.Forall₂ Packet.Same order arrived) :
    (arrived.flatMap (decoded ch)).Perm (sets.flatMap fun now => now.wire.list) := by
  have hsent : ∀ q ∈ sent, ∃ now, SentSet ch.lz4Compress iv mac me peer q now := by
    clear horder
    induction h with
    | nil => exact fun q hq => absurd hq List.not_mem_nil
    | @cons q now sent sets hnow _ ih =>
        intro q' hq'
        rcases List.mem_cons.mp hq' with rfl | hq'
        · exact ⟨now, hnow⟩
        · exact ih q' hq'
  have hsame : ∀ {order arrived : List Bytes}, (∀ q ∈ order, q ∈ sent) →
      List.Forall₂ Packet.Same order arrived →
        arrived.flatMap (decoded ch) = order.flatMap (decoded ch) := by
    intro order arrived hmem harrived
    induction harrived with
    | nil => rfl
    | @cons q r order arrived hr _ ih =>
        obtain ⟨now, hnow⟩ := hsent q (hmem q List.mem_cons_self)
        have hq := hnow.arrives.2
        rw [List.flatMap_cons, List.flatMap_cons, hq r hr, hq q ⟨rfl, rfl⟩,
          ih fun q' hq' => hmem q' (List.mem_cons_of_mem q hq')]
  have hsets : sent.flatMap (decoded ch) = sets.flatMap fun now => now.wire.list := by
    clear hsame horder hsent
    induction h with
    | nil => rfl
    | @cons q now sent sets hnow _ ih =>
        rw [List.flatMap_cons, List.flatMap_cons, ih, hnow.arrives.2 q ⟨rfl, rfl⟩]
  rw [hsame (fun q hq => horder.mem_iff.mp hq) harrived, ← hsets]
  exact horder.flatMap_right _

/-- No rule of a capability gives a bucket other than zero. -/
def NetworkConfig.NoBuckets (nconf : NetworkConfig) : Prop :=
  ∀ cap ∈ nconf.capabilities, ∀ r ∈ cap.rules, ¬r.SetsBucket

/-- A capability is the same on the wire if its rules give no bucket. -/
theorem canonical_wire {cap : Capability} (h : ∀ r ∈ cap.rules, ¬r.SetsBucket) :
    (PacketCredential.capability cap.wire).canonical =
      (PacketCredential.capability cap).canonical := by
  obtain ⟨nwid, ts, id, maxCustodyChainLength, rules, custody, rules_le⟩ := cap
  have hrules : (rules.map Rule.wire).map Rule.canonical = rules.map Rule.canonical := by
    rw [List.map_map]
    exact List.map_congr_left fun r hr => r.canonical_wire_iff.mpr (h r hr)
  show PacketCredential.capability ⟨nwid, ts, id, maxCustodyChainLength,
    (rules.map Rule.wire).map Rule.canonical, custody, _⟩ =
      PacketCredential.capability ⟨nwid, ts, id, maxCustodyChainLength,
        rules.map Rule.canonical, custody, _⟩
  congr 2

/-- Rules that give a bucket are not read from the wire. -/
theorem not_setsBucket_of_wire {r r' : Rule} (h : r'.wire.canonical = r.canonical) :
    ¬r.SetsBucket := by
  rintro ⟨qosBucket, hne, hr⟩
  have hbody : r'.body.wire.canonical = .action (.priority qosBucket) := by
    have := congrArg Rule.body h
    rw [show r.canonical.body = r.body.canonical from rfl, hr] at this
    exact this
  rcases hb : r'.body with a | m
  · rw [hb] at hbody
    cases a with
    | priority bucket =>
        exact hne (Action.priority.inj (Body.action.inj hbody)).symm
    | _ => cases hbody
  · rw [hb] at hbody
    cases m with
    | _ => cases hbody

/-- **What is sent is what there was** exactly if no rule gives a bucket. -/
theorem wire_list_perm_iff (nconf : NetworkConfig) :
    (nconf.credentials.wire.list.map PacketCredential.canonical).Perm
      (nconf.credentials.list.map PacketCredential.canonical) ↔ nconf.NoBuckets := by
  constructor
  · intro hperm cap hcap r hr
    have hmem : (PacketCredential.capability cap).canonical ∈
        nconf.credentials.wire.list.map PacketCredential.canonical := by
      refine hperm.mem_iff.mpr (List.mem_map_of_mem ?_)
      exact List.mem_append_right _ (List.mem_append_left _ (List.mem_map_of_mem hcap))
    obtain ⟨c, hc, hsame⟩ := List.mem_map.mp hmem
    -- only a capability becomes a capability
    rcases c with com | cap' | t | rev | coo
    · cases hsame
    · have hcap' : cap' ∈ nconf.capabilities.map Capability.wire := by
        rcases List.mem_append.mp hc with hc | hc
        · rcases hcom : nconf.credentials.wire.com with - | com
          · rw [hcom] at hc
            cases hc
          · rw [hcom] at hc
            cases List.mem_singleton.mp hc
        rcases List.mem_append.mp hc with hc | hc
        · obtain ⟨x, hx, hxc⟩ := List.mem_map.mp hc
          exact PacketCredential.capability.inj hxc ▸ hx
        rcases List.mem_append.mp hc with hc | hc
        · obtain ⟨x, -, hxc⟩ := List.mem_map.mp hc
          cases hxc
        · obtain ⟨x, -, hxc⟩ := List.mem_map.mp hc
          cases hxc
      obtain ⟨original, -, rfl⟩ := List.mem_map.mp hcap'
      have hrules : (original.rules.map Rule.wire).map Rule.canonical =
          cap.rules.map Rule.canonical :=
        congrArg Capability.rules (PacketCredential.capability.inj hsame)
      have hr' : r.canonical ∈ (original.rules.map Rule.wire).map Rule.canonical := by
        rw [hrules]
        exact List.mem_map_of_mem hr
      rw [List.map_map] at hr'
      obtain ⟨r', -, hr'⟩ := List.mem_map.mp hr'
      exact not_setsBucket_of_wire hr'
    · cases hsame
    · cases hsame
    · cases hsame
  · intro h
    refine List.Perm.of_eq ?_
    simp only [CredentialSet.list, CredentialSet.wire, List.map_append, List.map_map]
    congr 2
    exact List.map_congr_left fun cap hcap => canonical_wire (h cap hcap)

namespace Membership

/-- **Pushing credentials** ends without an exception, in packets that fit, whatever there is to
send; the packets deliver everything once, and as it was, exactly if no rule of a capability gives a
PRIORITY bucket other than zero. -/
theorem pushed_iff {C : Crypto} (ch : Channel C) (iv mac : ℕ → BitVec 64) (me peer : Address)
    (nconf : NetworkConfig) (h : nconf.credentials.WellFormed) :
    PushesAll ch iv mac me peer nconf ↔ nconf.NoBuckets := by
  obtain ⟨fuel, sent, sets, hturns, hsent, hperm⟩ :=
    pushTurns_ok ch.lz4Compress iv mac me peer h 0
  have hread : ∀ order arrived : List Bytes, order.Perm sent →
      List.Forall₂ Packet.Same order arrived →
      ((arrived.flatMap (decoded ch)).map PacketCredential.canonical).Perm
        (nconf.credentials.wire.list.map PacketCredential.canonical) :=
    fun order arrived horder harrived =>
      ((decoded_perm hsent horder harrived).trans hperm.symm).map _
  rw [← wire_list_perm_iff]
  constructor
  · rintro ⟨fuel', sent', hturns', -, hdelivers⟩
    obtain rfl := Except.ok.inj (pushTurns_inj hturns hturns')
    have hsame : List.Forall₂ Packet.Same sent sent := List.forall₂_same.mpr fun q _ => ⟨rfl, rfl⟩
    exact (hread sent sent (.refl _) hsame).symm.trans (hdelivers sent sent (.refl _) hsame)
  · intro hwire
    refine ⟨fuel, sent, hturns, ?_, fun order arrived horder harrived =>
      (hread order arrived horder harrived).trans hwire⟩
    intro q hq
    clear hturns hperm hread
    induction hsent with
    | nil => exact absurd hq List.not_mem_nil
    | @cons q' now sent sets hnow _ ih =>
        rcases List.mem_cons.mp hq with rfl | hq
        · exact hnow.arrives.1
        · exact ih hq

theorem one_le_maxCapabilityRules : 1 ≤ maxCapabilityRules := by decide

/-- A configuration with one capability, which has one rule. -/
def capableConfig (a : Action) : NetworkConfig :=
  { NetworkConfig.none with
    networkId := 1
    capabilities := [⟨1, 0, 7, 1, [⟨false, false, .action a⟩], fun _ => Capability.noCustody,
      one_le_maxCapabilityRules⟩] }

theorem wellFormed_capableConfig (a : Action) : (capableConfig a).credentials.WellFormed where
  com := by
    intro com hcom
    cases hcom
  capabilities := by
    intro cap hcap
    obtain rfl := List.mem_singleton.mp hcap
    have hchain : 1 ≤ maxCapabilityCustodyChainLength := by decide
    exact ⟨le_rfl, hchain, fun _ => rfl, fun c hc => absurd hc List.not_mem_nil⟩
  tags := fun t ht => absurd ht List.not_mem_nil
  coos := fun coo hcoo => absurd hcoo List.not_mem_nil

/-- A capability that accepts is delivered. -/
theorem capableConfig_pushed :
    PushesAll plainChannel (fun _ => 0) (fun _ => 0) 1 2 (capableConfig .accept) := by
  refine (pushed_iff plainChannel _ _ 1 2 (capableConfig .accept)
    (wellFormed_capableConfig .accept)).mpr ?_
  intro cap hcap r hr
  obtain rfl := List.mem_singleton.mp hcap
  obtain rfl := List.mem_singleton.mp hr
  rintro ⟨qosBucket, -, hbody⟩
  cases hbody

/-- **A bucket is lost**: a capability with a PRIORITY rule of bucket 5 is not what is delivered. -/
theorem capableConfig_bucket_lost : ¬ ∀ (C : Crypto) (ch : Channel C) (iv mac : ℕ → BitVec 64)
    (me peer : Address) (nconf : NetworkConfig), nconf.credentials.WellFormed →
      PushesAll ch iv mac me peer nconf := by
  intro hall
  have hpushed := hall _ plainChannel (fun _ => 0) (fun _ => 0) 1 2 (capableConfig (.priority 5))
    (wellFormed_capableConfig (.priority 5))
  obtain ⟨fuel, sent, hturns, -, hdelivers⟩ := hpushed
  obtain ⟨fuel', sent', sets, hturns', hsent, hperm⟩ :=
    pushTurns_ok plainChannel.lz4Compress (fun _ => 0) (fun _ => 0) 1 2
      (wellFormed_capableConfig (.priority 5)) 0
  obtain rfl := Except.ok.inj (pushTurns_inj hturns hturns')
  have hsame : List.Forall₂ Packet.Same sent sent := List.forall₂_same.mpr fun q _ => ⟨rfl, rfl⟩
  have hdecoded := ((decoded_perm hsent (.refl _) hsame).trans hperm.symm).map
    PacketCredential.canonical
  have hnone := (wire_list_perm_iff _).mp
    (hdecoded.symm.trans (hdelivers sent sent (.refl _) hsame))
  exact hnone _ List.mem_cons_self _ List.mem_cons_self ⟨5, by decide, rfl⟩

end Membership

end Delivery

end ZGalaxy
