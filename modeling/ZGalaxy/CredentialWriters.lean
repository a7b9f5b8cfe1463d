/-
ZGalaxy/CredentialWriters.lean

Credentials as they are written to packets.

Each writer is the `serialize` of a class, not for signing.  What a reader gets back of one is what
was written, as long as the parts have the sizes that the fields of the class have; the rules of a
capability come back in the form that they have on the wire.
-/
import Mathlib.Data.List.TakeWhile
import ZGalaxy.OwnershipObject
import ZGalaxy.RuleCodec

namespace ZGalaxy

open ByteList Buffer

/-! ### Parts -/

namespace Buffer

/-- A signature with its type and its length. -/
def signatureBytes (signature : Bytes) : Bytes := [1] ++ (beBytes 2 eccSignatureLen ++ signature)

theorem readsBack_address (a : Address) : Reader.ReadsBack nextAddress a a.toBytes := by
  have hread := (readsBack_field (Address.length_toBytes a)).map Address.ofBytes
  rwa [Address.ofBytes_toBytes] at hread

theorem readsBack_signature {signature : Bytes} (h : signature.length = eccSignatureLen) :
    Reader.ReadsBack nextSignature signature (signatureBytes signature) := by
  refine (readsBack_byte 1).bind ((readsBack_uint (by decide)).bind ?_)
  rw [if_pos rfl, if_neg (not_not.mpr rfl)]
  exact readsBack_field h

/-- There are no additional fields. -/
theorem readsBack_skipFields : Reader.ReadsBack skipFields () (beBytes 2 0) := by
  rw [← List.append_nil (beBytes 2 0)]
  refine (readsBack_uint (by decide)).bind ?_
  intro a c
  exact if_neg (by rw [List.length_append]; omega)

theorem readsBack_uint64 (v : UInt64) :
    Reader.ReadsBack (nextUInt 8) v.toNat (beBytes 8 v.toNat) :=
  readsBack_uint (lt_of_lt_of_eq v.toNat_lt (by norm_num))

theorem readsBack_uint32 (v : UInt32) :
    Reader.ReadsBack (nextUInt 4) v.toNat (beBytes 4 v.toNat) :=
  readsBack_uint (lt_of_lt_of_eq v.toNat_lt (by norm_num))

theorem readsBack_networkId (nwid : NetworkId) :
    Reader.ReadsBack (nextUInt 8) nwid.toNat (networkIdBytes nwid) :=
  readsBack_uint (lt_of_lt_of_eq nwid.isLt (by norm_num))

theorem readsBack_timestamp (ts : Int64) :
    Reader.ReadsBack (nextUInt 8) ts.toUInt64.toNat (timestampBytes ts) := readsBack_uint64 _

end Buffer

theorem networkId_back (nwid : NetworkId) : BitVec.ofNat 64 nwid.toNat = nwid := by
  rw [BitVec.ofNat_toNat, BitVec.setWidth_eq]

theorem timestamp_back (ts : Int64) : (UInt64.ofNat ts.toUInt64.toNat).toInt64 = ts := by
  rw [UInt64.ofNat_toNat, Int64.toInt64_toUInt64]

/-! ### Certificates of membership -/

namespace CertificateOfMembership

/-- A qualifier. -/
def qualifierBytes (q : Qualifier) : Bytes :=
  beBytes 8 q.id.toNat ++ (beBytes 8 q.value.toNat ++ beBytes 8 q.maxDelta.toNat)

/-- `CertificateOfMembership::serialize`. -/
def serialize (com : CertificateOfMembership) : Bytes :=
  [1] ++ (beBytes 2 com.qualifiers.length ++ (com.qualifiers.flatMap qualifierBytes ++
    (com.signedBy.toBytes ++ if com.signedBy.isSet then com.signature else [])))

/-- A certificate with sorted qualifiers, and with a signature if it has a signer. -/
structure WellFormed (com : CertificateOfMembership) : Prop where
  count : com.qualifiers.length ≤ comMaxQualifiers
  sorted : com.qualifiers.Pairwise fun q q' => q.id ≤ q'.id
  signature : com.signature.length = if com.signedBy.isSet then eccSignatureLen else 0

theorem readsBack_qualifiers {qs : List Qualifier} {count : ℕ} {lastId : UInt64}
    (hcount : count + qs.length ≤ comMaxQualifiers) (hlast : ∀ q ∈ qs, lastId ≤ q.id)
    (hsorted : qs.Pairwise fun q q' => q.id ≤ q'.id) :
    Reader.ReadsBack (readQualifiers qs.length count lastId) qs (qs.flatMap qualifierBytes) := by
  induction qs generalizing count lastId with
  | nil => exact Reader.ReadsBack.pure []
  | cons q qs ih =>
      obtain ⟨hq, hrest⟩ := List.pairwise_cons.mp hsorted
      rw [List.length_cons] at hcount
      have hread := ih (show count + 1 + qs.length ≤ comMaxQualifiers by omega) hq hrest
      rw [List.flatMap_cons, qualifierBytes, List.append_assoc, List.append_assoc]
      refine (readsBack_uint64 q.id).bind ?_
      rw [UInt64.ofNat_toNat, if_neg (UInt64.not_lt.mpr (hlast q List.mem_cons_self)),
        if_neg (by omega)]
      have hback : (⟨q.id, UInt64.ofNat q.value.toNat, UInt64.ofNat q.maxDelta.toNat⟩ : Qualifier) =
          q := by
        rw [UInt64.ofNat_toNat, UInt64.ofNat_toNat]
      refine (readsBack_uint64 q.value).bind ((readsBack_uint64 q.maxDelta).bind ?_)
      rw [hback]
      exact hread.map (List.cons q)

/-- **A certificate of membership is read back.** -/
theorem readsBack_deserialize {com : CertificateOfMembership} (h : com.WellFormed) :
    Reader.ReadsBack deserialize com com.serialize := by
  have hcount : com.qualifiers.length < 256 ^ 2 :=
    lt_of_le_of_lt h.count (by decide)
  refine (readsBack_byte 1).bind ?_
  rw [if_neg (not_not.mpr rfl)]
  refine (readsBack_uint hcount).bind ((readsBack_qualifiers
    ((Nat.zero_add _).trans_le h.count) (fun q _ => UInt64.zero_le) h.sorted).bind
      ((readsBack_address com.signedBy).bind ?_))
  have hsignature := h.signature
  split_ifs at hsignature ⊢ with hset
  · have hread := (readsBack_field hsignature).map fun s =>
      (⟨com.qualifiers, com.signedBy, s⟩ : CertificateOfMembership)
    exact hread
  · have hnil := List.length_eq_zero_iff.mp hsignature
    rw [← hnil]
    have hcom :
        (⟨com.qualifiers, com.signedBy, com.signature⟩ : CertificateOfMembership) = com := rfl
    rw [hcom, hnil]
    exact Reader.ReadsBack.pure com

end CertificateOfMembership

/-! ### Tags and certificates of ownership -/

namespace Tag

/-- `Tag::serialize`. -/
def serialize (t : Tag) : Bytes :=
  networkIdBytes t.networkId ++ (timestampBytes t.ts ++ (beBytes 4 t.id.toNat ++
    (beBytes 4 t.value.toNat ++ (t.issuedTo.toBytes ++ (t.signedBy.toBytes ++
      (signatureBytes t.signature ++ beBytes 2 0))))))

/-- **A tag is read back.** -/
theorem readsBack_deserialize {t : Tag} (h : t.signature.length = eccSignatureLen) :
    Reader.ReadsBack deserialize t t.serialize := by
  refine (readsBack_networkId t.networkId).bind ((readsBack_timestamp t.ts).bind
    ((readsBack_uint32 t.id).bind ((readsBack_uint32 t.value).bind
      ((readsBack_address t.issuedTo).bind ((readsBack_address t.signedBy).bind
        ((readsBack_signature h).bind ?_))))))
  rw [networkId_back, timestamp_back, UInt32.ofNat_toNat, UInt32.ofNat_toNat]
  exact readsBack_skipFields.map fun _ => t

end Tag

namespace CertificateOfOwnership

/-- A thing. -/
def thingBytes (thing : Thing) : Bytes := [thing.type] ++ beBytes 16 thing.value.toNat

/-- `CertificateOfOwnership::serialize`. -/
def serialize (coo : CertificateOfOwnership) : Bytes :=
  networkIdBytes coo.networkId ++ (timestampBytes coo.ts ++ (beBytes 8 coo.flags.toNat ++
    (beBytes 4 coo.id.toNat ++ (beBytes 2 coo.things.length ++ (coo.things.flatMap thingBytes ++
      (coo.issuedTo.toBytes ++ (coo.signedBy.toBytes ++
        (signatureBytes coo.signature ++ beBytes 2 0))))))))

/-- A certificate with no more things than it has room for. -/
structure WellFormed (coo : CertificateOfOwnership) : Prop where
  count : coo.things.length ≤ maxThings
  signature : coo.signature.length = eccSignatureLen

theorem readsBack_thing (thing : Thing) :
    Reader.ReadsBack readThing thing (thingBytes thing) := by
  have hvalue : thing.value.toNat < 256 ^ 16 := lt_of_lt_of_eq thing.value.isLt (by norm_num)
  have hback : BitVec.ofNat 128 (beNat (beBytes 16 thing.value.toNat)) = thing.value := by
    rw [beNat_beBytes, Nat.mod_eq_of_lt hvalue, BitVec.ofNat_toNat, BitVec.setWidth_eq]
  refine (readsBack_byte thing.type).bind ?_
  have hread := (readsBack_field (length_beBytes 16 thing.value.toNat)).map fun value =>
    (⟨thing.type, BitVec.ofNat 128 (beNat value)⟩ : Thing)
  rwa [hback] at hread

/-- **A certificate of ownership is read back.** -/
theorem readsBack_deserialize {coo : CertificateOfOwnership} (h : coo.WellFormed) :
    Reader.ReadsBack deserialize coo coo.serialize := by
  have hcount : coo.things.length < 256 ^ 2 := lt_of_le_of_lt h.count (by decide)
  refine (readsBack_networkId coo.networkId).bind ((readsBack_timestamp coo.ts).bind
    ((readsBack_uint64 coo.flags).bind ((readsBack_uint32 coo.id).bind
      ((readsBack_uint hcount).bind ?_))))
  rw [Nat.min_eq_left h.count]
  refine (Reader.ReadsBack.many fun thing _ => readsBack_thing thing).bind
    ((readsBack_address coo.issuedTo).bind ((readsBack_address coo.signedBy).bind
      ((readsBack_signature h.signature).bind ?_)))
  rw [networkId_back, timestamp_back, UInt64.ofNat_toNat, UInt32.ofNat_toNat]
  exact readsBack_skipFields.map fun _ => coo

end CertificateOfOwnership

/-! ### Capabilities -/

namespace Capability

/-- An entry of the chain of custody. -/
def custodyBytes (c : Custody) : Bytes :=
  c.to_.toBytes ++ (c.from_.toBytes ++ signatureBytes c.signature)

/-- The entries of the chain that are written: those before the first without a holder. -/
def holders (cap : Capability) : List Custody := cap.chain.takeWhile fun c => c.to_.isSet

/-- `Capability::serialize`. -/
def serialize (cap : Capability) : Bytes :=
  networkIdBytes cap.nwid ++ (timestampBytes cap.ts ++ (beBytes 4 cap.id.toNat ++
    (beBytes 2 cap.rules.length ++ (serializeRules cap.rules ++
      ([UInt8.ofNat cap.maxCustodyChainLength] ++ ((cap.holders.flatMap custodyBytes ++
        Address.toBytes 0) ++ beBytes 2 0))))))

/-- An entry of the chain that is not used. -/
def noCustody : Custody := ⟨0, 0, List.replicate eccSignatureLen 0⟩

/-- A capability whose chain of custody is no longer than it may be, and unused after its holders.
-/
structure WellFormed (cap : Capability) : Prop where
  pos : 1 ≤ cap.maxCustodyChainLength
  le_max : cap.maxCustodyChainLength ≤ maxCapabilityCustodyChainLength
  unbroken : ∀ i, cap.custody i = cap.holders.getD i noCustody
  signatures : ∀ c ∈ cap.holders, c.signature.length = eccSignatureLen

/-- The capability as it is read back, with its rules as they are on the wire. -/
def wire (cap : Capability) : Capability :=
  { cap with
    rules := cap.rules.map Rule.wire
    rules_le := (List.length_map _).trans_le cap.rules_le }

theorem readsBack_custody {holders : List Custody} {n : ℕ} (hn : holders.length ≤ n)
    (hset : ∀ c ∈ holders, c.to_.isSet = true)
    (hsignature : ∀ c ∈ holders, c.signature.length = eccSignatureLen) :
    Reader.ReadsBack (readCustody n) holders
      (holders.flatMap custodyBytes ++ Address.toBytes 0) := by
  induction holders generalizing n with
  | nil =>
      -- the chain ends with a null address, whether there is room for another entry or not
      rw [List.flatMap_nil, List.nil_append, ← List.append_nil (Address.toBytes 0)]
      cases n with
      | zero => exact (readsBack_address 0).bind (Reader.ReadsBack.pure [])
      | succ n => exact (readsBack_address 0).bind (Reader.ReadsBack.pure [])
  | cons c holders ih =>
      cases n with
      | zero => exact absurd hn (Nat.not_succ_le_zero _)
      | succ n =>
          have hrest := ih (Nat.le_of_succ_le_succ hn)
            (fun c' hc' => hset c' (List.mem_cons_of_mem c hc'))
            (fun c' hc' => hsignature c' (List.mem_cons_of_mem c hc'))
          rw [List.flatMap_cons, custodyBytes, List.append_assoc, List.append_assoc,
            List.append_assoc]
          refine (readsBack_address c.to_).bind ?_
          rw [if_pos (hset c List.mem_cons_self)]
          exact (readsBack_address c.from_).bind ((readsBack_signature
            (hsignature c List.mem_cons_self)).bind (hrest.map fun rest => _))

theorem length_holders (cap : Capability) : cap.holders.length ≤ cap.maxCustodyChainLength :=
  (List.takeWhile_sublist _).length_le.trans (List.length_take_le _ _)

/-- **A capability is read back** as it is on the wire. -/
theorem readsBack_deserialize {cap : Capability} (h : cap.WellFormed) :
    Reader.ReadsBack deserialize cap.wire cap.serialize := by
  have hmax : maxCapabilityCustodyChainLength = 7 := rfl
  have hpos := h.pos
  have hle := h.le_max
  have hrules : cap.rules.length < 256 ^ 2 := lt_of_le_of_lt cap.rules_le (by decide)
  have hlength : (UInt8.ofNat cap.maxCustodyChainLength).toNat = cap.maxCustodyChainLength :=
    UInt8.toNat_ofNat_of_lt' (show _ < 256 by omega)
  have hrow : Reader.ReadsBack (deserializeRules cap.rules.length)
      ⟨cap.rules.map Rule.wire, (List.length_map _).le⟩ (serializeRules cap.rules) := by
    intro a c
    obtain ⟨out, hout, hread⟩ := deserialize_serializeRules cap.rules a c (Or.inl rfl)
    rw [hread, show out = ⟨cap.rules.map Rule.wire, (List.length_map _).le⟩ from Subtype.ext hout]
  have hset : ∀ c ∈ cap.holders, c.to_.isSet = true := fun c hc =>
    List.mem_takeWhile_imp (p := fun c : Custody => c.to_.isSet) hc
  have hcustody := readsBack_custody cap.length_holders hset h.signatures
  refine (readsBack_networkId cap.nwid).bind ((readsBack_timestamp cap.ts).bind
    ((readsBack_uint32 cap.id).bind ((readsBack_uint hrules).bind ?_)))
  rw [dif_neg (not_lt.mpr cap.rules_le)]
  refine hrow.bind ((readsBack_byte _).bind ?_)
  rw [if_neg, hlength]
  · refine hcustody.bind ?_
    have hcap : cap.wire = ⟨BitVec.ofNat 64 cap.nwid.toNat,
        (UInt64.ofNat cap.ts.toUInt64.toNat).toInt64, UInt32.ofNat cap.id.toNat,
        cap.maxCustodyChainLength, cap.rules.map Rule.wire,
        fun i => cap.holders.getD i noCustody, cap.wire.rules_le⟩ := by
      obtain ⟨nwid, ts, id, maxCustodyChainLength, rules, custody, rules_le⟩ := cap
      rw [networkId_back, timestamp_back, UInt32.ofNat_toNat]
      exact congrArg (fun f => (⟨nwid, ts, id, maxCustodyChainLength, rules.map Rule.wire, f, _⟩ :
        Capability)) (funext h.unbroken)
    rw [hcap]
    exact readsBack_skipFields.map fun _ => _
  · rintro (hlt | hlt)
    · have := UInt8.lt_iff_toNat_lt.mp hlt
      rw [hlength] at this
      exact absurd this (not_lt.mpr hpos)
    · rw [hlength] at hlt
      omega

end Capability

end ZGalaxy
