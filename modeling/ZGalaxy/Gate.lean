/-
ZGalaxy/Gate.lean

Who gets through the gate of a network.

The gate looks at the configuration and at one membership; why it may trust them is a
matter of the whole run.  The invariant (`GateInv`) says of every membership that its
certificate of membership was accepted in this run under the member's own address, and
that its threshold is no lower than that of any accepted revocation.  It is kept by
adding certificates of membership, revoking them, configuring and gating.

Main result: `admitted_of_gate`, a peer that gets through a private network's gate has an
accepted certificate with everything the gate stands for (`Admitted`).
-/
import ZGalaxy.Network

namespace ZGalaxy

open ZGalaxy.Membership

/-! ### Agreement of certificates -/

namespace CertificateOfMembership

/-- The certificate holds a hash of the identity it was issued to. -/
def CarriesIdentityHash (com : CertificateOfMembership) : Prop :=
  ∃ q ∈ com.qualifiers, 3 ≤ q.id ∧ q.id ≤ 6

theorem exists_of_field {com : CertificateOfMembership} {id v : UInt64}
    (h : com.field id = some v) : ∃ q ∈ com.qualifiers, q.id = id ∧ q.value = v := by
  unfold field at h
  rw [Option.map_eq_some_iff] at h
  obtain ⟨q, hq, rfl⟩ := h
  refine ⟨q, List.mem_reverse.mp (List.mem_of_find?_eq_some hq), ?_, rfl⟩
  simpa using List.find?_some hq

/-- **What agreeing means.** -/
theorem agreesWith_spec {ecc : Ecc} {com other : CertificateOfMembership} {peer : Identity}
    (h : com.agreesWith ecc other peer = true) :
    other.qualifiers ≠ [] ∧
      (∀ q ∈ com.qualifiers, ∃ q' ∈ other.qualifiers, q'.id = q.id ∧
        delta q.value q'.value ≤ q.maxDelta) ∧
      (com.CarriesIdentityHash → ∀ i < 4, ∃ q' ∈ other.qualifiers,
        q'.id = UInt64.ofNat (i + 3) ∧ q'.value = publicKeyHash ecc peer i) := by
  unfold agreesWith at h
  simp only [Bool.and_eq_true, Bool.not_eq_true', Bool.or_eq_true] at h
  obtain ⟨⟨⟨-, hother⟩, hqs⟩, hhash⟩ := h
  refine ⟨?_, fun q hq => ?_, ?_⟩
  · intro hnil
    rw [hnil] at hother
    cases hother
  · have hfield := List.all_eq_true.mp hqs q hq
    rw [Option.any_eq_true] at hfield
    obtain ⟨b, hb, hle⟩ := hfield
    obtain ⟨q', hq', hid, rfl⟩ := exists_of_field hb
    refine ⟨q', hq', hid, ?_⟩
    simpa using hle
  · rintro ⟨q, hq, hlo, hhi⟩ i hi
    rcases hhash with hno | hall
    · -- this certificate has a hash
      rw [List.any_eq_false] at hno
      refine absurd ?_ (hno q hq)
      rw [Bool.and_eq_true, decide_eq_true_eq, decide_eq_true_eq]
      exact ⟨hlo, hhi⟩
    · have hfield := List.all_eq_true.mp hall i (List.mem_range.mpr hi)
      exact exists_of_field (eq_of_beq hfield)

/-- What the certificate's own check has seen. -/
theorem verify_ok {ecc : Ecc} {known : KnownIdentities} {com : CertificateOfMembership}
    (h : com.verify ecc known = .ok) :
    com.signedBy = Address.controllerFor com.networkId ∧
      ∃ id, known (Address.controllerFor com.networkId) = some id ∧
        ecc.verify id.publicKey com.forSign com.signature = true := by
  unfold verify at h
  split_ifs at h with hs
  push Not at hs
  obtain ⟨-, hsigned, -⟩ := hs
  rw [hsigned] at h
  exact ⟨hsigned, verifySignature_ok.mp h⟩

end CertificateOfMembership

namespace Membership

variable {ecc : Ecc} {known : KnownIdentities}

variable (ecc known) in
/-- What adding a certificate of membership does. -/
theorem addCom_spec (m : Membership) (com : CertificateOfMembership) :
    (m.addCom ecc known com).2 = m ∨
      (m.addCom ecc known com).1 = .acceptedNew ∧ com.verify ecc known = .ok ∧
        (m.addCom ecc known com).2 = { m with com := com } := by
  unfold addCom
  split_ifs with h₁ h₂ h₃
  · exact .inl rfl
  · exact .inl rfl
  · exact .inl rfl
  · rcases hv : com.verify ecc known with - | - | -
    · exact .inr ⟨rfl, rfl, rfl⟩
    · exact .inl rfl
    · exact .inl rfl

variable (ecc known) in
/-- What revoking the certificate of membership does. -/
theorem addRevocation_com (m : Membership) {rev : Revocation} (ht : rev.type = CredentialType.com) :
    (m.addRevocation ecc known rev).2.com = m.com ∧
      m.comRevocationThreshold ≤ (m.addRevocation ecc known rev).2.comRevocationThreshold ∧
      ((m.addRevocation ecc known rev).1 = .acceptedNew ∨
          (m.addRevocation ecc known rev).1 = .acceptedRedundant →
        rev.threshold ≤ (m.addRevocation ecc known rev).2.comRevocationThreshold) := by
  unfold addRevocation
  rcases rev.verify ecc known with - | - | - <;> dsimp only
  · rw [if_pos ht]
    split_ifs with hlt
    · exact ⟨rfl, Int64.le_of_lt hlt, fun _ => Int64.le_refl _⟩
    · exact ⟨rfl, Int64.le_refl _, fun _ => Int64.not_lt.mp hlt⟩
  · refine ⟨rfl, Int64.le_refl _, fun h => ?_⟩
    rcases h with h | h <;> cases h
  · refine ⟨rfl, Int64.le_refl _, fun h => ?_⟩
    rcases h with h | h <;> cases h

theorem multicastLikeGate_com (m : Membership) (now : Int64) :
    (m.multicastLikeGate now).2.com = m.com ∧
      (m.multicastLikeGate now).2.comRevocationThreshold = m.comRevocationThreshold := by
  unfold multicastLikeGate
  split_ifs <;> exact ⟨rfl, rfl⟩

end Membership

namespace Network

/-! ### What a run has accepted -/

variable (ecc : Ecc) (ownAddress : Address)

/-- In a run from `n₀` an event was answered `r`. -/
def Answered (n₀ : Network) (es : List Event) (e : Event) (r : AddCredentialResult) : Prop :=
  ∃ es₁ es₂, es = es₁ ++ e :: es₂ ∧
    ((machine ecc ownAddress).runState n₀ es₁).addResult ecc e = some r

variable {ecc ownAddress}

/-- What one more event adds to the answers. -/
theorem answered_concat {n₀ : Network} {es : List Event} {e e' : Event} {r : AddCredentialResult} :
    Answered ecc ownAddress n₀ (es ++ [e]) e' r ↔ Answered ecc ownAddress n₀ es e' r ∨
      e' = e ∧ ((machine ecc ownAddress).runState n₀ es).addResult ecc e = some r := by
  constructor
  · rintro ⟨es₁, es₂, heq, hr⟩
    rcases List.eq_nil_or_concat es₂ with rfl | ⟨es₂, e₂, rfl⟩
    · obtain ⟨rfl, he⟩ := List.append_inj' heq rfl
      obtain rfl := List.singleton_inj.mp he
      exact .inr ⟨rfl, hr⟩
    · have heq' : es ++ [e] = (es₁ ++ e' :: es₂) ++ [e₂] := by
        rw [heq, List.concat_eq_append, List.append_assoc, List.cons_append]
      obtain ⟨rfl, -⟩ := List.append_inj' heq' rfl
      exact .inl ⟨es₁, es₂, rfl, hr⟩
  · rintro (⟨es₁, es₂, rfl, hr⟩ | ⟨rfl, hr⟩)
    · exact ⟨es₁, es₂ ++ [e], by rw [List.append_assoc]; rfl, hr⟩
    · exact ⟨es, [], rfl, hr⟩

variable (ecc ownAddress)

/-- A revocation was accepted, whether or not it was news. -/
def RevocationAccepted (n₀ : Network) (es : List Event) (rev : Revocation) : Prop :=
  ∃ known sentFrom r, (r = AddCredentialResult.acceptedNew ∨ r = .acceptedRedundant) ∧
    Answered ecc ownAddress n₀ es (.addRevocation known sentFrom rev) r

/-- The operations that have to do with certificates of membership and with the gate. -/
def Event.ofGate : Event → Prop
  | .addCom _ _ => True
  | .addRevocation _ _ rev => rev.type = CredentialType.com
  | .setConfiguration _ => True
  | .gate _ _ => True
  | _ => False

/-- A certificate of membership was accepted for `a` in network `id`. -/
structure Accepted (n₀ : Network) (es : List Event) (id : NetworkId) (a : Address)
    (known : KnownIdentities) (com : CertificateOfMembership) : Prop where
  accepted : Answered ecc ownAddress n₀ es (.addCom known com) .acceptedNew
  networkId : com.networkId = id
  issuedTo : com.issuedTo = a
  verified : com.verify ecc known = .ok

/-- What a membership rests on: a certificate accepted for it, if there is any, and a
threshold as high as that of each accepted revocation. -/
structure GateInv (n₀ : Network) (es : List Event) (n : Network) (a : Address) : Prop where
  com : (n.membership a).com = CertificateOfMembership.empty ∨
    ∃ known, Accepted ecc ownAddress n₀ es n.id a known (n.membership a).com
  threshold : ∀ rev, RevocationAccepted ecc ownAddress n₀ es rev → rev.target = a →
    rev.threshold ≤ (n.membership a).comRevocationThreshold

variable {ecc ownAddress}

theorem Accepted.concat {n₀ : Network} {es : List Event} {id : NetworkId} {a : Address}
    {known : KnownIdentities} {com : CertificateOfMembership}
    (h : Accepted ecc ownAddress n₀ es id a known com) (e : Event) :
    Accepted ecc ownAddress n₀ (es ++ [e]) id a known com :=
  ⟨answered_concat.mpr (.inl h.accepted), h.networkId, h.issuedTo, h.verified⟩

/-- An event that is no revocation leaves the accepted revocations as they are. -/
theorem revocationAccepted_concat {n₀ : Network} {es : List Event} {e : Event} {rev : Revocation}
    (h : RevocationAccepted ecc ownAddress n₀ (es ++ [e]) rev) :
    RevocationAccepted ecc ownAddress n₀ es rev ∨
      ∃ known sentFrom, e = .addRevocation known sentFrom rev ∧
        ∃ r, (r = AddCredentialResult.acceptedNew ∨ r = .acceptedRedundant) ∧
          (((machine ecc ownAddress).runState n₀ es).addRevocation ecc known rev).1 = r := by
  obtain ⟨known, sentFrom, r, hr, hans⟩ := h
  rcases answered_concat.mp hans with hans | ⟨rfl, hres⟩
  · exact .inl ⟨known, sentFrom, r, hr, hans⟩
  · exact .inr ⟨known, sentFrom, rfl, r, hr, Option.some.inj hres⟩

variable (ecc) in
/-- **What an event of the gate does to a membership**: its certificate stays or is the
one just accepted, its threshold does not fall and covers what is revoked. -/
theorem memberStep_ofGate (n : Network) (a : Address) (m : Membership) {e : Event}
    (he : e.ofGate) :
    ((n.memberStep ecc a m e).com = m.com ∨ ∃ known com, e = .addCom known com ∧
        com.networkId = n.id ∧ com.issuedTo = a ∧ (m.addCom ecc known com).1 = .acceptedNew ∧
        com.verify ecc known = .ok ∧ (n.memberStep ecc a m e).com = com) ∧
      m.comRevocationThreshold ≤ (n.memberStep ecc a m e).comRevocationThreshold ∧
      ∀ known sentFrom rev, e = .addRevocation known sentFrom rev → rev.networkId = n.id →
        rev.target = a → ((m.addRevocation ecc known rev).1 = .acceptedNew ∨
          (m.addRevocation ecc known rev).1 = .acceptedRedundant) →
        rev.threshold ≤ (n.memberStep ecc a m e).comRevocationThreshold := by
  cases e with
  | addCom known com =>
      refine ⟨?_, ?_, nofun⟩ <;> unfold memberStep <;> dsimp only <;> split_ifs with hfor
      · rcases addCom_spec ecc known m com with heq | ⟨hres, hver, heq⟩
        · exact .inl (congrArg Membership.com heq)
        · exact .inr ⟨known, com, rfl, hfor.1, hfor.2, hres, hver, congrArg Membership.com heq⟩
      · exact .inl rfl
      · rcases addCom_spec ecc known m com with heq | ⟨-, -, heq⟩
        all_goals
          rw [heq]
          exact Int64.le_refl _
      · exact Int64.le_refl _
  | addRevocation known sentFrom rev =>
      obtain ⟨hcom, hle, hcovers⟩ := addRevocation_com ecc known m he
      refine ⟨.inl ?_, ?_, ?_⟩ <;> unfold memberStep <;> dsimp only
      · split_ifs with hfor
        · exact hcom
        · rfl
      · split_ifs with hfor
        · exact hle
        · exact Int64.le_refl _
      · rintro _ _ _ heq hnet htarget hres
        obtain ⟨rfl, rfl, rfl⟩ := Event.addRevocation.inj heq
        rw [if_pos ⟨hnet, htarget⟩]
        exact hcovers hres
  | setConfiguration nconf => exact ⟨.inl rfl, Int64.le_refl _, nofun⟩
  | gate now peer =>
      refine ⟨.inl ?_, ?_, nofun⟩ <;> unfold memberStep <;> dsimp only <;> split_ifs with hfor
      · exact (multicastLikeGate_com m now).1
      · rfl
      · rw [(multicastLikeGate_com m now).2]
        exact Int64.le_refl _
      · exact Int64.le_refl _
  | addTag | addCapability | addCoo | clean => exact he.elim

/-- **The invariant is kept** by the operations of the gate. -/
theorem gateInv_step {n₀ : Network} {es : List Event} {e : Event} {a : Address} (he : e.ofGate)
    (hinv : GateInv ecc ownAddress n₀ es ((machine ecc ownAddress).runState n₀ es) a) :
    GateInv ecc ownAddress n₀ (es ++ [e]) ((machine ecc ownAddress).runState n₀ (es ++ [e])) a := by
  set n := (machine ecc ownAddress).runState n₀ es with hn
  rw [Machine.runState_concat, ← hn]
  have hid := step_id ecc ownAddress n e
  obtain ⟨hcom, hle, hcovers⟩ := memberStep_ofGate ecc n a (n.membership a) he
  refine ⟨?_, fun rev hrev htarget => ?_⟩
  · rw [step_membership, hid]
    rcases hcom with hkept | ⟨known, com, rfl, hnet, hto, hres, hver, hnew⟩
    · rw [hkept]
      rcases hinv.com with hc | ⟨known, hc⟩
      · exact .inl hc
      · exact .inr ⟨known, hc.concat e⟩
    · rw [hnew]
      refine .inr ⟨known, answered_concat.mpr (.inr ⟨rfl, ?_⟩), hnet, hto, hver⟩
      show some (n.addCom ecc known com).1 = some .acceptedNew
      rw [addCom, addCredential, if_neg (not_not.mpr hnet), hto, hres]
  · rw [step_membership]
    rcases revocationAccepted_concat hrev with hrev | ⟨known, sentFrom, rfl, r, hr, hres⟩
    · exact Int64.le_trans (hinv.threshold rev hrev htarget) hle
    · have hrej : r ≠ .rejected := by
        rcases hr with rfl | rfl <;> exact nofun
      obtain ⟨hnet, hadd⟩ := addCredential_fst hrej hres
      rw [htarget] at hadd
      exact hcovers known sentFrom rev rfl hnet htarget (by rw [hadd]; exact hr)

variable (ecc ownAddress) in
/-- **The invariant holds** after every run of such operations. -/
theorem gateInv_run (id : NetworkId) {es : List Event} (he : ∀ e ∈ es, e.ofGate) (a : Address) :
    GateInv ecc ownAddress (initial id) es
      ((machine ecc ownAddress).runState (initial id) es) a := by
  induction es using List.reverseRecOn with
  | nil =>
      refine ⟨.inl rfl, fun rev hrev => ?_⟩
      obtain ⟨_, _, _, -, es₁, es₂, hnil, -⟩ := hrev
      exact absurd hnil.symm (by simp)
  | append_singleton es e ih =>
      refine gateInv_step (he e (by simp)) (ih fun e' he' => he e' ?_)
      exact List.mem_append_left [e] he'

/-! ### The gate -/

variable (ecc ownAddress)

/-- What a peer has shown that a private network's gate lets through. -/
structure Admitted (n₀ : Network) (es : List Event) (n : Network) (peer : Identity)
    (known : KnownIdentities) (com : CertificateOfMembership) : Prop where
  accepted : Accepted ecc ownAddress n₀ es n.id peer.address known com
  signed : ∃ controller, known (Address.controllerFor n.id) = some controller ∧
    ecc.verify controller.publicKey com.forSign com.signature = true
  hash : ∀ i < 4, ∃ q ∈ com.qualifiers,
    q.id = UInt64.ofNat (i + 3) ∧ q.value = publicKeyHash ecc peer i
  notRevoked : ∀ rev, RevocationAccepted ecc ownAddress n₀ es rev → rev.target = peer.address →
    rev.threshold < com.timestamp
  agrees : ∀ q ∈ n.config.com.qualifiers, ∃ q' ∈ com.qualifiers,
    q'.id = q.id ∧ CertificateOfMembership.delta q.value q'.value ≤ q.maxDelta

variable {ecc ownAddress}

/-- **Who gets through the gate**: with a configuration whose certificate has an identity
hash, after any run of the gate's operations, only a peer of a public network, or one
for whose address a certificate was accepted that shows all the gate stands for. -/
theorem admitted_of_gate (id : NetworkId) (es : List Event) (he : ∀ e ∈ es, e.ofGate)
    (n : Network) (hn : n = (machine ecc ownAddress).runState (initial id) es)
    (hown : n.config.com.CarriesIdentityHash) (now : Int64) (peer : Identity)
    (hgate : (n.gate ecc now peer).1 = true) :
    n.config.isSet = true ∧ (n.config.isPublic = true ∨
      ∃ known com, Admitted ecc ownAddress (initial id) es n peer known com) := by
  subst hn
  set n := (machine ecc ownAddress).runState (initial id) es
  have hadmits : n.admits ecc peer = true := by
    unfold gate at hgate
    split_ifs at hgate with h
    exact h
  unfold admits at hadmits
  rw [Bool.and_eq_true, Bool.or_eq_true, Option.any_eq_true] at hadmits
  obtain ⟨hset, hpublic | ⟨m, hm, hallowed⟩⟩ := hadmits
  · exact ⟨hset, .inl hpublic⟩
  refine ⟨hset, ?_⟩
  have hmem : n.membership peer.address = m := by
    rw [membership, hm, Option.getD_some]
  unfold isAllowedOnNetwork at hallowed
  rw [Bool.or_eq_true, Bool.and_eq_true, decide_eq_true_eq] at hallowed
  obtain hpublic | ⟨hts, hagree⟩ := hallowed
  · exact .inl hpublic
  obtain ⟨hother, hqs, hhash⟩ := CertificateOfMembership.agreesWith_spec hagree
  have hinv := gateInv_run ecc ownAddress id he peer.address
  rcases hinv.com with hempty | ⟨known, hacc⟩
  · -- a membership without a certificate agrees with nothing
    rw [hmem] at hempty
    rw [hempty] at hother
    exact absurd rfl hother
  · rw [hmem] at hacc
    obtain ⟨-, controller, hknown, hver⟩ := CertificateOfMembership.verify_ok hacc.verified
    rw [hacc.networkId] at hknown
    refine .inr ⟨known, m.com, hacc, ⟨controller, hknown, hver⟩, hhash hown, ?_, hqs⟩
    intro rev hrev htarget
    have hle := hinv.threshold rev hrev htarget
    rw [hmem] at hle
    exact Int64.lt_of_le_of_lt hle hts

/-! ### A member at the gate -/

/-- A scheme that accepts every signature and hashes everything to zeros. -/
def trustingEcc : Ecc where
  verify := fun _ _ _ => true
  sha384 := fun _ => List.replicate 48 0

/-- A certificate of network 0x1000001 for a node, with the hash of its identity. -/
def memberCom (timestamp node : UInt64) : CertificateOfMembership where
  qualifiers := [⟨0, timestamp, 100⟩, ⟨1, 0x1000001, 0⟩, ⟨2, node, 0xffffffffffffffff⟩,
    ⟨3, 0, 0xffffffffffffffff⟩, ⟨4, 0, 0xffffffffffffffff⟩, ⟨5, 0, 0xffffffffffffffff⟩,
    ⟨6, 0, 0xffffffffffffffff⟩]
  signedBy := 1
  signature := [1]

/-- The configuration of that network for node 4. -/
def memberConfig : NetworkConfig :=
  { NetworkConfig.none with networkId := 0x1000001, issuedTo := 4, com := memberCom 50 4 }

/-- Node 4 is configured and learns the certificate of node 5. -/
def memberRun : List Event :=
  [.setConfiguration memberConfig, .addCom (fun a => some ⟨a, [1]⟩) (memberCom 60 5)]

/-- Node 5 gets through the gate, and has shown what it takes. -/
theorem admitted_member :
    ∃ known com, Admitted trustingEcc 4 (initial 0x1000001) memberRun
      ((machine trustingEcc 4).runState (initial 0x1000001) memberRun) ⟨5, [2]⟩ known com := by
  have hevents : ∀ e ∈ memberRun, e.ofGate := by
    intro e he
    rcases List.mem_cons.mp he with rfl | he
    · trivial
    · obtain rfl := List.mem_singleton.mp he
      trivial
  have hconfig : ((machine trustingEcc 4).runState (initial 0x1000001) memberRun).config
      = memberConfig := by
    decide +kernel
  have hgate : (((machine trustingEcc 4).runState (initial 0x1000001) memberRun).gate
      trustingEcc 1000 ⟨5, [2]⟩).1 = true := by
    have hadmits : ((machine trustingEcc 4).runState (initial 0x1000001) memberRun).admits
        trustingEcc ⟨5, [2]⟩ = true := by
      decide +kernel
    unfold gate
    rw [if_pos hadmits]
  have hown : ((machine trustingEcc 4).runState (initial 0x1000001)
      memberRun).config.com.CarriesIdentityHash := by
    rw [hconfig]
    exact ⟨⟨3, 0, 0xffffffffffffffff⟩, by decide +kernel, by decide, by decide⟩
  rcases (admitted_of_gate 0x1000001 memberRun hevents _ rfl hown 1000 ⟨5, [2]⟩ hgate).2 with
    hpublic | h
  · rw [hconfig] at hpublic
    exact absurd hpublic (by decide)
  · exact h

end Network

end ZGalaxy
