/-
ZGalaxy/ComMeaning.lean

What a certificate of membership says.

The accessors take the first qualifier with an id, the comparison with another certificate takes
the last.  A certificate that is read has its qualifiers sorted by id, but nothing keeps one id
from coming twice.  What is read is what was written, whatever it says: a certificate is written
again to the bytes that it was read from.

Main result: `meaning_iff`, that the accessors and the comparison see the same values exactly when
the first and the last qualifier of each of the three ids have the same, and the value for an
address is one of 40 bits.
-/
import ZGalaxy.CredentialWriters
import ZGalaxy.Gate

namespace ZGalaxy

open ByteList Buffer

/-! ### The bytes that a reader has read -/

namespace Buffer

theorem nextAddress_bytes {b : Bytes} {p q : ℕ} {a : Address} (h : nextAddress b p = .ok (a, q)) :
    q = p + addressLength ∧ slice b p addressLength = a.toBytes := by
  obtain ⟨bits, m, hbits, h⟩ := Reader.bind_ok.mp h
  obtain ⟨rfl, rfl⟩ := Prod.mk.inj (Reader.pure_ok.mp h)
  obtain ⟨hm, hslice, hlength⟩ := nextField_bytes hbits
  exact ⟨hm, hslice.trans (Address.toBytes_ofBytes hlength).symm⟩

end Buffer

namespace CertificateOfMembership

/-- What `deserialize` has read of the qualifiers. -/
theorem readQualifiers_bytes {n count p q : ℕ} {lastId : UInt64} {b : Bytes} {qs : List Qualifier}
    (h : readQualifiers n count lastId b p = .ok (qs, q)) :
    qs.length = n ∧ q = p + n * 24 ∧ slice b p (n * 24) = qs.flatMap qualifierBytes := by
  -- on the qualifiers, with the last id and the place in the bytes
  induction n generalizing count lastId p qs with
  | zero =>
      obtain ⟨rfl, rfl⟩ := Prod.mk.inj (Reader.pure_ok.mp h)
      exact ⟨rfl, rfl, List.take_zero⟩
  | succ n ih =>
      obtain ⟨qid, p₁, hid, h⟩ := Reader.bind_ok.mp h
      split_ifs at h with hsorted hmax
      · cases h
      · cases h
      · obtain ⟨value, p₂, hvalue, h⟩ := Reader.bind_ok.mp h
        obtain ⟨maxDelta, p₃, hdelta, h⟩ := Reader.bind_ok.mp h
        obtain ⟨rest, p₄, hrest, h⟩ := Reader.bind_ok.mp h
        obtain ⟨rfl, rfl⟩ := Prod.mk.inj (Reader.pure_ok.mp h)
        obtain ⟨rfl, hidBytes, hidLt⟩ := nextUInt_bytes hid
        obtain ⟨rfl, hvalueBytes, hvalueLt⟩ := nextUInt_bytes hvalue
        obtain ⟨rfl, hdeltaBytes, hdeltaLt⟩ := nextUInt_bytes hdelta
        obtain ⟨hlength, hq, hbytes⟩ := ih hrest
        have hback : ∀ v : ℕ, v < 256 ^ 8 → (UInt64.ofNat v).toNat = v := fun v hv =>
          UInt64.toNat_ofNat_of_lt' (lt_of_lt_of_eq hv (by norm_num))
        refine ⟨by rw [List.length_cons, hlength], by omega, ?_⟩
        rw [List.flatMap_cons, qualifierBytes, hback qid hidLt, hback value hvalueLt,
          hback maxDelta hdeltaLt, ← hidBytes, ← hvalueBytes, ← hdeltaBytes, ← hbytes,
          slice_append_slice, slice_append_slice, Nat.add_assoc (p + 8), Nat.add_assoc p,
          slice_append_slice, show 8 + (8 + 8) + n * 24 = (n + 1) * 24 by omega]

/-- **What is read is what was written**: an accepted certificate is written to the bytes that it
was read from. -/
theorem serialize_of_deserialize {b : Bytes} {p q : ℕ} {com : CertificateOfMembership}
    (h : deserialize b p = .ok (com, q)) : com.serialize = slice b p (q - p) := by
  obtain ⟨type, p₁, htype, h⟩ := Reader.bind_ok.mp h
  split_ifs at h with hone
  · cases h
  obtain ⟨numq, p₂, hnumq, h⟩ := Reader.bind_ok.mp h
  obtain ⟨qualifiers, p₃, hqualifiers, h⟩ := Reader.bind_ok.mp h
  obtain ⟨signedBy, p₄, hsignedBy, h⟩ := Reader.bind_ok.mp h
  obtain ⟨rfl, htypeBytes⟩ := nextByte_bytes htype
  obtain ⟨rfl, hnumqBytes, -⟩ := nextUInt_bytes hnumq
  obtain ⟨hcount, rfl, hqualifierBytes⟩ := readQualifiers_bytes hqualifiers
  obtain ⟨rfl, hsignedByBytes⟩ := nextAddress_bytes hsignedBy
  rw [not_not.mp hone] at htypeBytes
  have hwritten : ∀ signature : Bytes, ∀ l,
      slice b (p + 1 + 2 + numq * 24 + addressLength) l = (if signedBy.isSet then signature else []) →
        serialize ⟨qualifiers, signedBy, signature⟩ =
          slice b p (1 + (2 + (numq * 24 + (addressLength + l)))) := by
    intro signature l hl
    rw [serialize, ← hl, ← hsignedByBytes, ← hqualifierBytes, hcount, ← hnumqBytes, ← htypeBytes,
      slice_append_slice, slice_append_slice, slice_append_slice, slice_append_slice]
  split_ifs at h with hset
  · obtain ⟨signature, p₅, hsignature, h⟩ := Reader.bind_ok.mp h
    obtain ⟨rfl, rfl⟩ := Prod.mk.inj (Reader.pure_ok.mp h)
    obtain ⟨rfl, hsignatureBytes, -⟩ := nextField_bytes hsignature
    rw [hwritten signature eccSignatureLen (by rw [if_pos hset]; exact hsignatureBytes)]
    congr 1
    omega
  · obtain ⟨rfl, rfl⟩ := Prod.mk.inj (Reader.pure_ok.mp h)
    rw [hwritten [] 0 (by rw [if_neg hset]; exact List.take_zero)]
    congr 1
    omega

/-- The accessors return the values that `agreesWith` takes from the certificate of the other. -/
structure OneMeaning (com : CertificateOfMembership) : Prop where
  timestamp : ∀ v, com.field 0 = some v → com.timestamp.toUInt64 = v
  networkId : ∀ v, com.field 1 = some v → com.networkId = v.toBitVec
  issuedTo : ∀ v, com.field 2 = some v → com.issuedTo.toNat = v.toNat

/-- `q` is the first qualifier with this id. -/
def FirstWith (qs : List Qualifier) (id : UInt64) (q : Qualifier) : Prop :=
  q.id = id ∧ ∃ before after, qs = before ++ q :: after ∧ ∀ x ∈ before, x.id ≠ id

/-- `q` is the last qualifier with this id. -/
def LastWith (qs : List Qualifier) (id : UInt64) (q : Qualifier) : Prop :=
  q.id = id ∧ ∃ before after, qs = before ++ q :: after ∧ ∀ x ∈ after, x.id ≠ id

/-- No id of the three that the accessors look for comes again with another value, and an address
has 40 bits. -/
structure Unambiguous (qs : List Qualifier) : Prop where
  timestamp : ∀ q q', FirstWith qs 0 q → LastWith qs 0 q' → q'.value = q.value
  networkId : ∀ q q', FirstWith qs 1 q → LastWith qs 1 q' → q'.value = q.value
  issuedTo : ∀ q q', FirstWith qs 2 q → LastWith qs 2 q' →
    q'.value.toNat = q.value.toNat % 1099511627776

/-! ### The first and the last -/

theorem find?_eq_some {qs : List Qualifier} {id : UInt64} {q : Qualifier} :
    (qs.find? fun q => decide (q.id = id)) = some q ↔ FirstWith qs id q := by
  rw [List.find?_eq_some_iff_append, decide_eq_true_eq]
  refine and_congr_right fun _ => exists_congr fun before => exists_congr fun after => ?_
  refine and_congr_right fun _ => forall₂_congr fun x _ => ?_
  rw [Bool.not_eq_true', decide_eq_false_iff_not]

theorem reverse_find?_eq_some {qs : List Qualifier} {id : UInt64} {q : Qualifier} :
    (qs.reverse.find? fun q => decide (q.id = id)) = some q ↔ LastWith qs id q := by
  rw [find?_eq_some]
  refine and_congr_right fun _ => ?_
  constructor
  · rintro ⟨before, after, hqs, hnone⟩
    refine ⟨after.reverse, before.reverse, ?_, fun x hx => hnone x (List.mem_reverse.mp hx)⟩
    rw [← List.reverse_reverse qs, hqs]
    simp
  · rintro ⟨before, after, rfl, hnone⟩
    refine ⟨after.reverse, before.reverse, ?_, fun x hx => hnone x (List.mem_reverse.mp hx)⟩
    simp

/-- A qualifier that is found from one end is found from the other. -/
theorem field_eq_some {com : CertificateOfMembership} {id v : UInt64} :
    com.field id = some v ↔ ∃ q q', FirstWith com.qualifiers id q ∧ LastWith com.qualifiers id q' ∧
      com.reservedValue id = q.value ∧ v = q'.value := by
  have hfield : com.field id = some v ↔
      ∃ q', LastWith com.qualifiers id q' ∧ q'.value = v := by
    rw [field, Option.map_eq_some_iff]
    exact exists_congr fun q' => and_congr_left fun _ => reverse_find?_eq_some
  rw [hfield]
  constructor
  · rintro ⟨q', hlast, rfl⟩
    rcases hfind : com.qualifiers.find? fun q => decide (q.id = id) with - | q
    · -- the last one is also found from the front
      obtain ⟨hid, before, after, hqs, -⟩ := hlast
      have hmem : q' ∈ com.qualifiers := by
        rw [hqs]
        exact List.mem_append_right before List.mem_cons_self
      exact absurd (decide_eq_true hid) (List.find?_eq_none.mp hfind q' hmem)
    · refine ⟨q, q', find?_eq_some.mp hfind, hlast, ?_, rfl⟩
      rw [reservedValue, hfind]
      rfl
  · rintro ⟨q, q', -, hlast, -, rfl⟩
    exact ⟨q', hlast, rfl⟩

theorem reservedValue_eq {com : CertificateOfMembership} {id : UInt64} {q : Qualifier}
    (h : FirstWith com.qualifiers id q) : com.reservedValue id = q.value := by
  rw [reservedValue, find?_eq_some.mpr h]
  rfl

/-- What the accessors and the comparison say of one id. -/
theorem forall_field_iff {com : CertificateOfMembership} {id : UInt64}
    {P : UInt64 → UInt64 → Prop} :
    (∀ v, com.field id = some v → P (com.reservedValue id) v) ↔
      ∀ q q', FirstWith com.qualifiers id q → LastWith com.qualifiers id q' →
        P q.value q'.value := by
  constructor
  · intro h q q' hfirst hlast
    have hv := h q'.value (field_eq_some.mpr ⟨q, q', hfirst, hlast, reservedValue_eq hfirst, rfl⟩)
    rwa [reservedValue_eq hfirst] at hv
  · intro h v hv
    obtain ⟨q, q', hfirst, hlast, hreserved, rfl⟩ := field_eq_some.mp hv
    rw [hreserved]
    exact h q q' hfirst hlast

/-- **One meaning** is what unambiguous qualifiers have. -/
theorem oneMeaning_iff (com : CertificateOfMembership) :
    com.OneMeaning ↔ Unambiguous com.qualifiers := by
  have htimestamp : (∀ v, com.field 0 = some v → com.timestamp.toUInt64 = v) ↔
      ∀ q q', FirstWith com.qualifiers 0 q → LastWith com.qualifiers 0 q' → q'.value = q.value := by
    refine Iff.trans ?_ (forall_field_iff (P := fun v v' => v' = v))
    refine forall₂_congr fun v _ => ?_
    rw [CertificateOfMembership.timestamp, UInt64.toUInt64_toInt64, eq_comm]
  have hnetworkId : (∀ v, com.field 1 = some v → com.networkId = v.toBitVec) ↔
      ∀ q q', FirstWith com.qualifiers 1 q → LastWith com.qualifiers 1 q' → q'.value = q.value := by
    refine Iff.trans ?_ (forall_field_iff (P := fun v v' => v' = v))
    refine forall₂_congr fun v _ => ?_
    rw [CertificateOfMembership.networkId, UInt64.toBitVec_inj, eq_comm]
  have hissuedTo : (∀ v, com.field 2 = some v → com.issuedTo.toNat = v.toNat) ↔
      ∀ q q', FirstWith com.qualifiers 2 q → LastWith com.qualifiers 2 q' →
        q'.value.toNat = q.value.toNat % 1099511627776 := by
    refine Iff.trans ?_ (forall_field_iff
      (P := fun v v' => v'.toNat = v.toNat % 1099511627776))
    refine forall₂_congr fun v _ => ?_
    rw [CertificateOfMembership.issuedTo, Address.ofUInt64, BitVec.toNat_setWidth, eq_comm]
    rfl
  exact ⟨fun h => ⟨htimestamp.mp h.timestamp, hnetworkId.mp h.networkId, hissuedTo.mp h.issuedTo⟩,
    fun h => ⟨htimestamp.mpr h.timestamp, hnetworkId.mpr h.networkId, hissuedTo.mpr h.issuedTo⟩⟩

/-- **The meaning of a certificate** that was read, whether it verifies or not: it is written again
as it was, and the accessors and the comparison agree exactly when the qualifiers are unambiguous.
-/
theorem meaning_iff (b : Bytes) (p q : ℕ) (com : CertificateOfMembership)
    (h : deserialize b p = .ok (com, q)) :
    com.serialize = slice b p (q - p) ∧ com.OneMeaning ↔ Unambiguous com.qualifiers :=
  (and_iff_right (serialize_of_deserialize h)).trans (oneMeaning_iff com)

/-- A certificate of network 0x1000001 for node 5 with these timestamps. -/
def stampedCom (timestamps : List UInt64) : CertificateOfMembership where
  qualifiers := timestamps.map (fun t => ⟨0, t, 100⟩) ++
    [⟨1, 0x1000001, 0⟩, ⟨2, 5, 0xffffffffffffffff⟩]
  signedBy := 1
  signature := List.replicate eccSignatureLen 0

theorem wellFormed_stampedCom {timestamps : List UInt64} (h : timestamps.length ≤ 6) :
    (stampedCom timestamps).WellFormed := by
  refine ⟨?_, ?_, List.length_replicate⟩
  · show (timestamps.map _ ++ _).length ≤ 8
    rw [List.length_append, List.length_map, List.length_cons, List.length_cons, List.length_nil]
    omega
  · refine List.pairwise_append.mpr ⟨?_, by decide, ?_⟩
    · exact List.pairwise_map.mpr (List.pairwise_of_forall fun _ _ => UInt64.le_refl 0)
    · intro x hx y _
      obtain ⟨t, -, rfl⟩ := List.mem_map.mp hx
      exact UInt64.zero_le

theorem deserialize_stampedCom {timestamps : List UInt64} (h : timestamps.length ≤ 6) :
    deserialize (stampedCom timestamps).serialize 0 =
      .ok (stampedCom timestamps, (stampedCom timestamps).serialize.length) := by
  have hread := readsBack_deserialize (wellFormed_stampedCom h) [] []
  rw [List.append_nil] at hread
  rwa [List.length_nil, Nat.zero_add] at hread

/-- A certificate with one timestamp has one meaning. -/
theorem stampedCom_meaning :
    (stampedCom [7]).serialize = slice (stampedCom [7]).serialize 0
      ((stampedCom [7]).serialize.length - 0) ∧ (stampedCom [7]).OneMeaning := by
  have honly : ∀ {id : UInt64} {q q' : Qualifier}, FirstWith (stampedCom [7]).qualifiers id q →
      LastWith (stampedCom [7]).qualifiers id q' → q' = q ∧ q.value.toNat < 1099511627776 := by
    intro id q q' hfirst hlast
    obtain ⟨hid, before, after, hqs, -⟩ := hfirst
    obtain ⟨hid', before', after', hqs', -⟩ := hlast
    have hq : q ∈ (stampedCom [7]).qualifiers := hqs ▸ List.mem_append_right _ List.mem_cons_self
    have hq' : q' ∈ (stampedCom [7]).qualifiers := hqs' ▸ List.mem_append_right _ List.mem_cons_self
    have hunique : ∀ x ∈ (stampedCom [7]).qualifiers, ∀ y ∈ (stampedCom [7]).qualifiers,
        x.id = y.id → x = y ∧ y.value.toNat < 1099511627776 := by decide
    exact hunique q' hq' q hq (hid'.trans hid.symm)
  refine (meaning_iff _ 0 _ _ (deserialize_stampedCom (by decide))).mpr ⟨?_, ?_, ?_⟩
  · intro q q' hfirst hlast
    rw [(honly hfirst hlast).1]
  · intro q q' hfirst hlast
    rw [(honly hfirst hlast).1]
  · intro q q' hfirst hlast
    rw [(honly hfirst hlast).1, Nat.mod_eq_of_lt (honly hfirst hlast).2]

/-- **Two timestamps**: a certificate that is accepted and verifies, which for the accessors is of
one time and for the comparison of another. -/
theorem stampedCom_ambiguous : ¬ ∀ (ecc : Ecc) (known : KnownIdentities) (b : Bytes) (p q : ℕ)
    (com : CertificateOfMembership), deserialize b p = .ok (com, q) → com.verify ecc known = .ok →
      com.serialize = slice b p (q - p) ∧ com.OneMeaning := by
  intro h
  have hmeaning := (h Network.trustingEcc (fun _ => some ⟨1, []⟩) _ 0 _ _
    (deserialize_stampedCom (show [7, 8].length ≤ 6 by decide)) (by decide)).2
  exact absurd (hmeaning.timestamp 8 (by decide)) (by decide)

end CertificateOfMembership

end ZGalaxy
