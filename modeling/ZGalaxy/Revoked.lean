/-
ZGalaxy/Revoked.lean

How long revoked credentials stay revoked.

Accepting a revocation raises a threshold in the membership of its target, and nothing
that is done to that membership afterwards lowers it (`revokedUpTo_step`), except that
the membership is dropped as a whole once its peer is no longer cached.  The
threshold of the certificate of membership is kept as long as no revocation of another
type replaces it by a lower one (`comThreshold_step`).

Main result: `stays_revoked`, in a run that does not drop the membership no credential
at or below the threshold is stored as new or used; `revived_after_clean` is a run
that does.
-/
import ZGalaxy.Gate

namespace ZGalaxy

open ZGalaxy.Membership

namespace Membership

variable {ecc : Ecc} {known : KnownIdentities}

/-- An accepted revocation of a credential that is kept by id raises its threshold. -/
theorem addRevocation_revokes {m : Membership} {rev : Revocation} (ht : keptById rev.type = true)
    (hr : (m.addRevocation ecc known rev).1 = .acceptedNew ∨
      (m.addRevocation ecc known rev).1 = .acceptedRedundant) :
    RevokedUpTo (m.addRevocation ecc known rev).2.revocations rev.type rev.credentialId
      rev.threshold := by
  have hcom : rev.type ≠ CredentialType.com := by
    intro h
    rw [h] at ht
    exact absurd ht (by decide)
  revert hr
  unfold addRevocation
  rcases rev.verify ecc known with - | - | - <;> dsimp only <;> intro hr
  · rw [if_neg hcom, if_pos ht]
    split_ifs with hlt
    · exact ⟨_, by rw [Hashtable.get_set, if_pos rfl], Int64.le_refl _⟩
    · exact ⟨_, by rw [Hashtable.get_set, if_pos rfl], Int64.not_lt.mp hlt⟩
  all_goals rcases hr with hr | hr <;> cases hr

variable (ecc known) in
/-- Revoking another type changes the threshold of the certificate only when it is news. -/
theorem addRevocation_other (m : Membership) {rev : Revocation}
    (ht : rev.type ≠ CredentialType.com) :
    (m.addRevocation ecc known rev).2.comRevocationThreshold = m.comRevocationThreshold ∨
      (m.addRevocation ecc known rev).1 = .acceptedNew ∧
        (m.addRevocation ecc known rev).2.comRevocationThreshold = rev.threshold := by
  unfold addRevocation
  rcases rev.verify ecc known with - | - | - <;> dsimp only
  · rw [if_neg ht]
    split_ifs
    · exact .inr ⟨rfl, rfl⟩
    · exact .inl rfl
    · exact .inl rfl
  · exact .inl rfl
  · exact .inl rfl

theorem addCom_kept (m : Membership) (com : CertificateOfMembership) :
    (m.addCom ecc known com).2.revocations = m.revocations ∧
      (m.addCom ecc known com).2.comRevocationThreshold = m.comRevocationThreshold := by
  rcases addCom_spec ecc known m com with h | ⟨-, -, h⟩
  all_goals
    rw [h]
    exact ⟨rfl, rfl⟩

theorem multicastLikeGate_revocations (m : Membership) (now : Int64) :
    (m.multicastLikeGate now).2.revocations = m.revocations := by
  unfold multicastLikeGate
  split_ifs <;> rfl

/-- A certificate of membership at or below its threshold is not new. -/
theorem addCom_revoked {m : Membership} {com : CertificateOfMembership}
    (h : com.timestamp ≤ m.comRevocationThreshold) :
    (m.addCom ecc known com).1 = .rejected := by
  unfold addCom
  rw [if_pos h]

end Membership

namespace Network

variable (ecc : Ecc) (ownAddress : Address)

/-! ### Events that keep thresholds -/

/-- The event does not drop the membership of `a`: a cleaning finds its peer cached. -/
def Event.Keeps (a : Address) : Event → Prop
  | .clean cached => cached a = true
  | _ => True

/-- The event does not replace the threshold of `a`'s certificate of membership by one
below `threshold`, as a revocation of another type does when it is accepted as new. -/
def KeepsComThreshold (a : Address) (threshold : Int64) (n : Network) : Event → Prop
  | .addRevocation known _ rev =>
      rev.target = a → rev.type ≠ CredentialType.com →
        (n.addRevocation ecc known rev).1 = .acceptedNew → threshold ≤ rev.threshold
  | _ => True

variable {ecc ownAddress}

/-- **No event lowers the threshold** of a credential that is kept by id. -/
theorem revokedUpTo_step {n : Network} {a : Address} {m : Membership} {e : Event}
    {t : CredentialType} {id : UInt32} {threshold : Int64} (he : e.Keeps a)
    (h : RevokedUpTo m.revocations t id threshold) :
    RevokedUpTo (n.memberStep ecc a m e).revocations t id threshold := by
  unfold memberStep
  cases e with
  | addCom known com =>
      dsimp only
      split_ifs
      · rw [(addCom_kept m com).1]
        exact h
      · exact h
  | addTag | addCapability | addCoo =>
      dsimp only
      split_ifs
      · exact h
      · exact h
  | addRevocation known sentFrom rev =>
      dsimp only
      split_ifs
      · exact revoked_mono h
      · exact h
  | setConfiguration nconf => exact h
  | gate now peer =>
      dsimp only
      split_ifs
      · rw [multicastLikeGate_revocations]
        exact h
      · exact h
  | clean cached =>
      dsimp only
      split_ifs with hd hc
      · exact h
      · exact h
      · exact absurd he hc

/-- **The threshold of the certificate of membership** is lowered by nothing else. -/
theorem comThreshold_step {n : Network} {a : Address} {e : Event} {threshold : Int64}
    (he : e.Keeps a) (hc : KeepsComThreshold ecc a threshold n e)
    (h : threshold ≤ (n.membership a).comRevocationThreshold) :
    threshold ≤ (n.memberStep ecc a (n.membership a) e).comRevocationThreshold := by
  unfold memberStep
  cases e with
  | addCom known com =>
      dsimp only
      split_ifs
      · rw [(addCom_kept _ com).2]
        exact h
      · exact h
  | addTag | addCapability | addCoo =>
      dsimp only
      split_ifs
      · exact h
      · exact h
  | addRevocation known sentFrom rev =>
      dsimp only
      split_ifs with hfor
      · by_cases ht : rev.type = CredentialType.com
        · exact Int64.le_trans h (addRevocation_com ecc known _ ht).2.1
        · rcases addRevocation_other ecc known (n.membership a) ht with
            hkept | ⟨hnew, hset⟩
          · rw [hkept]
            exact h
          · rw [hset]
            refine hc hfor.2 ht ?_
            rw [addRevocation, addCredential, if_neg (not_not.mpr hfor.1), hfor.2, hnew]
      · exact h
  | setConfiguration nconf => exact h
  | gate now peer =>
      dsimp only
      split_ifs
      · rw [(multicastLikeGate_com _ now).2]
        exact h
      · exact h
  | clean cached =>
      dsimp only
      split_ifs with hd hcached
      · exact h
      · exact h
      · exact absurd he hcached

/-! ### Runs -/

/-- Along a run that keeps the membership, a threshold stays. -/
theorem revokedUpTo_run {n : Network} {a : Address} {es : List Event} {t : CredentialType}
    {id : UInt32} {threshold : Int64} (he : ∀ e ∈ es, e.Keeps a)
    (h : RevokedUpTo (n.membership a).revocations t id threshold) :
    RevokedUpTo (((machine ecc ownAddress).runState n es).membership a).revocations t id
      threshold := by
  refine Machine.invariant_run (h := [])
    (I := fun _ (n : Network) => RevokedUpTo (n.membership a).revocations t id threshold)
    (C := fun _ (e : Event) => e.Keeps a) ?_ h
    (Machine.guarded_of_forall (fun e he' _ => he e he') n)
  intro _ n e hn hk
  rw [step_membership]
  exact revokedUpTo_step hk hn

/-- Along a run that keeps the membership and the threshold of its certificate, that
threshold stays. -/
theorem comThreshold_run {n : Network} {a : Address} {es : List Event} {threshold : Int64}
    (he : ∀ e ∈ es, e.Keeps a)
    (hc : (machine ecc ownAddress).Guarded (KeepsComThreshold ecc a threshold) n es)
    (h : threshold ≤ (n.membership a).comRevocationThreshold) :
    threshold ≤ (((machine ecc ownAddress).runState n es).membership a).comRevocationThreshold := by
  induction es generalizing n with
  | nil => exact h
  | cons e es ih =>
      refine ih (fun e' he' => he e' (List.mem_cons_of_mem e he')) hc.2 ?_
      rw [step_membership]
      exact comThreshold_step (he e List.mem_cons_self) hc.1 h

/-! ### What is revoked is not used -/

variable (ecc)

/-- The tag is neither stored as new nor found. -/
structure TagUnusable (n : Network) (a : Address) (tag : Tag) : Prop where
  notNew : tag.issuedTo = a → ∀ known, (n.addTag ecc known tag).1 ≠ .acceptedNew
  notFound : ∀ nconf id, (n.membership a).getTag nconf id ≠ some tag

/-- The capability is neither stored as new nor gone through. -/
structure CapabilityUnusable (n : Network) (a : Address) (cap : Capability) : Prop where
  notNew : cap.issuedTo = a → ∀ known, (n.addCapability ecc known cap).1 ≠ .acceptedNew
  notFound : ∀ nconf, cap ∉ (n.membership a).validCapabilities nconf

/-- The certificate of ownership is neither stored as new nor asked. -/
structure CooUnusable (n : Network) (a : Address) (coo : CertificateOfOwnership) : Prop where
  notNew : coo.issuedTo = a → ∀ known, (n.addCoo ecc known coo).1 ≠ .acceptedNew
  notFound : ∀ nconf, coo ∉ (n.membership a).validCoos nconf

/-- The certificate of membership is neither stored as new nor does it let anybody into
a private network. -/
structure ComUnusable (n : Network) (a : Address) (com : CertificateOfMembership) : Prop where
  notNew : com.issuedTo = a → ∀ known, (n.addCom ecc known com).1 ≠ .acceptedNew
  notAllowed : (n.membership a).com = com → ∀ nconf peer, nconf.isPublic = false →
    (n.membership a).isAllowedOnNetwork ecc nconf peer = false

variable {ecc}

/-- A credential at or below its threshold is not new. -/
theorem notNew_of_revoked {C : Type} [Credential C] [DecidableEq C] {m : Membership}
    {remoteCreds : Hashtable UInt32 C} {cred : C} {threshold : Int64} {known : KnownIdentities}
    (h : RevokedUpTo m.revocations (Credential.credentialType C) (Credential.id cred) threshold)
    (hts : Credential.timestamp cred ≤ threshold) :
    (addCredImpl ecc known remoteCreds m.revocations cred).1 ≠ .acceptedNew := by
  intro hnew
  have hrev := isRevoked_of_revokedUpTo h hts
  rw [(addCredImpl_new hnew).1] at hrev
  cases hrev

/-- A credential at or below its threshold is not valid. -/
theorem notValid_of_revoked {C : Type} [Credential C] {m : Membership} {cred : C}
    {threshold : Int64} {nconf : NetworkConfig}
    (h : RevokedUpTo m.revocations (Credential.credentialType C) (Credential.id cred) threshold)
    (hts : Credential.timestamp cred ≤ threshold) :
    m.isCredentialTimestampValid nconf cred ≠ true := by
  intro hvalid
  have hrev := isRevoked_of_revokedUpTo h hts
  rw [isCredentialTimestampValid_revoked hvalid] at hrev
  cases hrev

/-- A credential that its membership does not take as new is not new to the network. -/
theorem addCredential_ne {n : Network} {nwid : NetworkId} {a : Address}
    {add : Membership → AddCredentialResult × Membership}
    (h : (add (n.membership a)).1 ≠ .acceptedNew) :
    (n.addCredential nwid a add).1 ≠ .acceptedNew :=
  fun hnew => h (addCredential_fst (by decide) hnew).2

section Unusable

variable {n : Network} {a : Address} {id : UInt32} {threshold : Int64}

theorem tagUnusable {tag : Tag}
    (h : RevokedUpTo (n.membership a).revocations CredentialType.tag tag.id threshold)
    (hts : tag.ts ≤ threshold) : TagUnusable ecc n a tag where
  notNew := by
    rintro rfl known
    exact addCredential_ne (notNew_of_revoked (C := Tag) h hts)
  notFound := by
    intro nconf id hfound
    unfold getTag at hfound
    rw [Option.filter_eq_some_iff] at hfound
    exact notValid_of_revoked (C := Tag) h hts hfound.2

theorem capabilityUnusable {cap : Capability}
    (h : RevokedUpTo (n.membership a).revocations CredentialType.capability cap.id threshold)
    (hts : cap.ts ≤ threshold) : CapabilityUnusable ecc n a cap where
  notNew := by
    rintro rfl known
    exact addCredential_ne (notNew_of_revoked (C := Capability) h hts)
  notFound := fun _ hfound =>
    notValid_of_revoked (C := Capability) h hts (List.mem_filter.mp hfound).2

theorem cooUnusable {coo : CertificateOfOwnership}
    (h : RevokedUpTo (n.membership a).revocations CredentialType.coo coo.id threshold)
    (hts : coo.ts ≤ threshold) : CooUnusable ecc n a coo where
  notNew := by
    rintro rfl known
    exact addCredential_ne (notNew_of_revoked (C := CertificateOfOwnership) h hts)
  notFound := fun _ hfound =>
    notValid_of_revoked (C := CertificateOfOwnership) h hts (List.mem_filter.mp hfound).2

theorem comUnusable {com : CertificateOfMembership}
    (h : threshold ≤ (n.membership a).comRevocationThreshold) (hts : com.timestamp ≤ threshold) :
    ComUnusable ecc n a com where
  notNew := by
    rintro rfl known
    refine addCredential_ne ?_
    rw [addCom_revoked (Int64.le_trans hts h)]
    decide
  notAllowed := by
    rintro rfl nconf peer hprivate
    unfold isAllowedOnNetwork
    rw [hprivate, decide_eq_false (Int64.not_lt.mpr (Int64.le_trans hts h))]
    rfl

end Unusable

/-! ### Once revoked -/

/-- **Revoked credentials stay revoked** in every run that does not drop the membership of
the revocation's target: those kept by id in any case, the certificate of membership
as long as its threshold is not replaced by a lower one. -/
theorem stays_revoked (n₀ : Network) (es₁ es₂ : List Event) (known : KnownIdentities)
    (sentFrom : Address) (rev : Revocation)
    (hacc : (((machine ecc ownAddress).runState n₀ es₁).addRevocation ecc known rev).1 =
      .acceptedNew ∨
      (((machine ecc ownAddress).runState n₀ es₁).addRevocation ecc known rev).1
        = .acceptedRedundant)
    (hkeep : ∀ e ∈ es₂, e.Keeps rev.target)
    (n : Network) (hn : n = (machine ecc ownAddress).runState n₀
      (es₁ ++ .addRevocation known sentFrom rev :: es₂)) :
    (rev.type = CredentialType.tag → ∀ tag : Tag, tag.id = rev.credentialId →
        tag.ts ≤ rev.threshold → TagUnusable ecc n rev.target tag) ∧
      (rev.type = CredentialType.capability → ∀ cap : Capability, cap.id = rev.credentialId →
        cap.ts ≤ rev.threshold → CapabilityUnusable ecc n rev.target cap) ∧
      (rev.type = CredentialType.coo → ∀ coo : CertificateOfOwnership, coo.id = rev.credentialId →
        coo.ts ≤ rev.threshold → CooUnusable ecc n rev.target coo) ∧
      (rev.type = CredentialType.com →
        (machine ecc ownAddress).Guarded (KeepsComThreshold ecc rev.target rev.threshold)
          ((machine ecc ownAddress).runState n₀ (es₁ ++ [.addRevocation known sentFrom rev])) es₂ →
        ∀ com : CertificateOfMembership, com.timestamp ≤ rev.threshold →
          ComUnusable ecc n rev.target com) := by
  set n₁ := (machine ecc ownAddress).runState n₀ es₁
  set n₂ := (machine ecc ownAddress).runState n₀ (es₁ ++ [.addRevocation known sentFrom rev])
    with hn₂
  have hrun : n = (machine ecc ownAddress).runState n₂ es₂ := by
    rw [hn, hn₂, ← Machine.runState_append, List.append_assoc]
    rfl
  -- the network passes it to the membership of its target
  have hacc' : rev.networkId = n₁.id ∧
      (((n₁.membership rev.target).addRevocation ecc known rev).1 = .acceptedNew ∨
        ((n₁.membership rev.target).addRevocation ecc known rev).1 = .acceptedRedundant) := by
    rcases hacc with h | h
    · exact ⟨(addCredential_fst (by decide) h).1, .inl (addCredential_fst (by decide) h).2⟩
    · exact ⟨(addCredential_fst (by decide) h).1, .inr (addCredential_fst (by decide) h).2⟩
  have hafter : n₂.membership rev.target
      = ((n₁.membership rev.target).addRevocation ecc known rev).2 := by
    rw [hn₂, Machine.runState_concat, step_membership]
    unfold memberStep
    exact if_pos ⟨hacc'.1, rfl⟩
  -- what is revoked by id stays so through the rest of the run
  have hkept : keptById rev.type = true →
      RevokedUpTo
        (n.membership rev.target).revocations rev.type rev.credentialId rev.threshold := by
    intro ht
    rw [hrun]
    refine revokedUpTo_run hkeep ?_
    rw [hafter]
    exact addRevocation_revokes ht hacc'.2
  refine ⟨fun ht tag hid hts => ?_, fun ht cap hid hts => ?_, fun ht coo hid hts => ?_,
    fun ht hguard com hts => ?_⟩
  · rw [ht] at hkept
    refine tagUnusable ?_ hts
    rw [hid]
    exact hkept rfl
  · rw [ht] at hkept
    refine capabilityUnusable ?_ hts
    rw [hid]
    exact hkept rfl
  · rw [ht] at hkept
    refine cooUnusable ?_ hts
    rw [hid]
    exact hkept rfl
  · -- the certificate has a threshold instead, which the guard keeps
    refine comUnusable ?_ hts
    rw [hrun]
    refine comThreshold_run hkeep hguard ?_
    rw [hafter]
    exact (addRevocation_com ecc known _ ht).2.2 hacc'.2

/-! ### A membership that is dropped -/

/-- A revocation of the tag 7 of node 5 up to time 100. -/
def sampleRevocation : Revocation where
  id := 0
  credentialId := 7
  networkId := 0x1000001
  threshold := 100
  flags := 0
  target := 5
  signedBy := 1
  type := CredentialType.tag
  signature := [1]

/-- The tag 7 of node 5, at time 60. -/
def sampleTag : Tag where
  id := 7
  value := 1
  networkId := 0x1000001
  ts := 60
  issuedTo := 5
  signedBy := 1
  signature := [1]

/-- Everybody is known. -/
def everybody : KnownIdentities := fun a => some ⟨a, [1]⟩

/-- As long as node 5 is cached its tag stays revoked. -/
theorem sampleTag_stays_revoked : TagUnusable trustingEcc
    ((machine trustingEcc 4).runState (initial 0x1000001)
      [.addRevocation everybody 1 sampleRevocation, .clean fun _ => true]) 5 sampleTag :=
  (@stays_revoked trustingEcc 4 (initial 0x1000001) [] [.clean fun _ => true]
    everybody 1 sampleRevocation (.inl (by decide +kernel))
    (fun e he => by obtain rfl := List.mem_singleton.mp he; rfl) _ rfl).1 rfl sampleTag rfl
    (by decide)

/-- **A revoked tag comes back** when its member is not cached at a cleaning: the revocation
is accepted, the membership is dropped, and the tag is accepted as new and found. -/
theorem revived_after_clean :
    ((initial 0x1000001).addRevocation trustingEcc everybody sampleRevocation).1 = .acceptedNew ∧
      sampleTag.id = sampleRevocation.credentialId ∧
      sampleTag.ts ≤ sampleRevocation.threshold ∧
      (((machine trustingEcc 4).runState (initial 0x1000001)
        [.addRevocation everybody 1 sampleRevocation, .clean fun _ => false]).addTag
          trustingEcc everybody sampleTag).1 = .acceptedNew ∧
      (((machine trustingEcc 4).runState (initial 0x1000001)
        [.addRevocation everybody 1 sampleRevocation, .clean fun _ => false,
          .addTag everybody sampleTag]).membership 5).getTag
            { memberConfig with credentialTimeMaxDelta := 100 } 7 = some sampleTag := by
  refine ⟨by decide +kernel, rfl, by decide, by decide +kernel, by decide +kernel⟩

end Network

end ZGalaxy
