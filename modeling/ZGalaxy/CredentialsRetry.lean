/-
ZGalaxy/CredentialsRetry.lean

Trying a packet of credentials again once their signers are known.

A packet stops at the first credential that has to wait (`exists_waitsAt`).  Up to there both
attempts do the same, since what did not have to wait is added alike when more identities are known
(`accept_learned`); so the second attempt adds credentials to each membership once more, before
those that are left.  But the second attempt has to pass the rate gate too, which the first one has
set.

Main result: `credentials_kept_iff`, that the packet is not lost exactly when the gate lets the
second attempt pass and the memberships are settled.
-/
import ZGalaxy.CredentialsAgain

namespace ZGalaxy

open ByteList
open ZGalaxy.Membership

/-! ### Learning identities -/

section Learned

variable {ecc : Ecc} {known known' : KnownIdentities}

/-- Whoever was known is known. -/
def Learned (known known' : KnownIdentities) : Prop :=
  ∀ a id, known a = some id → known' a = some id

theorem verifySignature_learned (h : Learned known known') {signer : Address}
    {data signature : Bytes}
    (hv : verifySignature ecc known signer data signature ≠ .whois) :
    verifySignature ecc known' signer data signature
      = verifySignature ecc known signer data signature := by
  unfold verifySignature at hv ⊢
  rcases hid : known signer with - | id
  · rw [hid] at hv
    exact absurd rfl hv
  · rw [h signer id hid]

theorem verifySigned_learned (h : Learned known known') {signedBy : Address} {nwid : NetworkId}
    {data signature : Bytes} (hv : verifySigned ecc known signedBy nwid data signature ≠ .whois) :
    verifySigned ecc known' signedBy nwid data signature
      = verifySigned ecc known signedBy nwid data signature := by
  unfold verifySigned at hv ⊢
  split_ifs at hv ⊢ with hs
  · rfl
  · exact verifySignature_learned h hv

theorem CertificateOfMembership.verify_learned (h : Learned known known')
    {com : CertificateOfMembership} (hv : com.verify ecc known ≠ .whois) :
    com.verify ecc known' = com.verify ecc known := by
  unfold CertificateOfMembership.verify at hv ⊢
  split_ifs at hv ⊢ with hs
  · rfl
  · exact verifySignature_learned h hv

theorem Capability.verifyChain_learned (h : Learned known known') {nwid : NetworkId} {data : Bytes}
    {prev : Option Address} {chain : List Custody}
    (hv : Capability.verifyChain ecc known nwid data prev chain ≠ .whois) :
    Capability.verifyChain ecc known' nwid data prev chain
      = Capability.verifyChain ecc known nwid data prev chain := by
  -- on the chain of custody, of which each signer is the next one before
  induction chain generalizing prev with
  | nil => rcases prev with - | a <;> rfl
  | cons c chain ih =>
      rcases prev with - | a
      all_goals
        rw [verifyChain] at hv ⊢
        rw [verifyChain]
        split_ifs at hv ⊢
        all_goals try rfl
        have hsig : verifySignature ecc known c.from_ data c.signature ≠ .whois := by
          intro hwhois
          rw [hwhois] at hv
          exact hv rfl
        rw [verifySignature_learned h hsig]
        rcases hr : verifySignature ecc known c.from_ data c.signature with - | - | -
        · rw [hr] at hv
          exact ih hv
        · rfl
        · rfl

theorem Capability.verify_learned (h : Learned known known') {cap : Capability}
    (hv : cap.verify ecc known ≠ .whois) : cap.verify ecc known' = cap.verify ecc known := by
  unfold Capability.verify at hv ⊢
  split_ifs at hv ⊢ with hs
  · rfl
  · exact verifyChain_learned h hv

namespace Membership

theorem addCredImpl_learned {C : Type} [Credential C] [DecidableEq C]
    {remoteCreds : Hashtable UInt32 C} {revocations : Hashtable UInt64 Int64} {cred : C}
    (hverify : Credential.verify ecc known cred ≠ .whois →
      Credential.verify ecc known' cred = Credential.verify ecc known cred)
    (hr : (addCredImpl ecc known remoteCreds revocations cred).1 ≠ .deferredForWhois) :
    addCredImpl ecc known' remoteCreds revocations cred
      = addCredImpl ecc known remoteCreds revocations cred := by
  unfold addCredImpl at hr ⊢
  dsimp only at hr ⊢
  split_ifs at hr ⊢ with h₁ h₂ h₃
  · rfl
  · rfl
  · rfl
  · have hv : Credential.verify ecc known cred ≠ .whois := by
      intro hwhois
      rw [hwhois] at hr
      exact hr rfl
    rw [hverify hv]

/-- **A credential that did not have to wait** is added alike when more identities are known. -/
theorem accept_learned (h : Learned known known') {m : Membership} {c : PacketCredential}
    (hr : (m.accept ecc known c).1 ≠ .deferredForWhois) :
    m.accept ecc known' c = m.accept ecc known c := by
  cases c with
  | com com =>
      show m.addCom ecc known' com = m.addCom ecc known com
      change (m.addCom ecc known com).1 ≠ _ at hr
      unfold addCom at hr ⊢
      split_ifs at hr ⊢ with h₁ h₂ h₃
      · rfl
      · rfl
      · rfl
      · have hv : com.verify ecc known ≠ .whois := by
          intro hwhois
          rw [hwhois] at hr
          exact hr rfl
        rw [CertificateOfMembership.verify_learned h hv]
  | capability cap =>
      have himpl := addCredImpl_learned (Capability.verify_learned h) hr
      show m.addCapability ecc known' cap = m.addCapability ecc known cap
      unfold addCapability
      rw [himpl]
  | tag tag =>
      have himpl := addCredImpl_learned (C := Tag) (verifySigned_learned h) hr
      show m.addTag ecc known' tag = m.addTag ecc known tag
      unfold addTag
      rw [himpl]
  | coo coo =>
      have himpl := addCredImpl_learned (C := CertificateOfOwnership) (verifySigned_learned h) hr
      show m.addCoo ecc known' coo = m.addCoo ecc known coo
      unfold addCoo
      rw [himpl]
  | revocation rev =>
      show m.addRevocation ecc known' rev = m.addRevocation ecc known rev
      change (m.addRevocation ecc known rev).1 ≠ _ at hr
      have hv : rev.verify ecc known ≠ .whois := by
        intro hwhois
        unfold addRevocation at hr
        rw [hwhois] at hr
        exact hr rfl
      have hverify : rev.verify ecc known' = rev.verify ecc known := verifySigned_learned h hv
      unfold addRevocation
      rw [hverify]

/-- A credential whose signers are known does not have to wait. -/
theorem accept_ne_deferred {m : Membership} {c : PacketCredential}
    (hv : c.verify ecc known ≠ .whois) :
    (m.accept ecc known c).1 ≠ .deferredForWhois := by
  have himpl : ∀ {C : Type} [Credential C] [DecidableEq C] (remoteCreds : Hashtable UInt32 C)
      (revocations : Hashtable UInt64 Int64) (cred : C), Credential.verify ecc known cred ≠ .whois →
      (addCredImpl ecc known remoteCreds revocations cred).1 ≠ .deferredForWhois := by
    intro C _ _ remoteCreds revocations cred hv
    unfold addCredImpl
    dsimp only
    split_ifs
    · exact AddCredentialResult.noConfusion
    · exact AddCredentialResult.noConfusion
    · exact AddCredentialResult.noConfusion
    · rcases hr : Credential.verify ecc known cred with - | - | -
      · exact AddCredentialResult.noConfusion
      · exact absurd hr hv
      · exact AddCredentialResult.noConfusion
  cases c with
  | com com =>
      show (m.addCom ecc known com).1 ≠ _
      unfold addCom
      split_ifs
      · exact AddCredentialResult.noConfusion
      · exact AddCredentialResult.noConfusion
      · exact AddCredentialResult.noConfusion
      · rcases hr : com.verify ecc known with - | - | -
        · exact AddCredentialResult.noConfusion
        · exact absurd hr hv
        · exact AddCredentialResult.noConfusion
  | capability cap => exact himpl m.remoteCaps m.revocations cap hv
  | tag tag => exact himpl m.remoteTags m.revocations tag hv
  | coo coo => exact himpl m.remoteCoos m.revocations coo hv
  | revocation rev =>
      show (m.addRevocation ecc known rev).1 ≠ _
      unfold addRevocation
      rcases hr : rev.verify ecc known with - | - | -
      · dsimp only
        split_ifs <;> exact AddCredentialResult.noConfusion
      · exact absurd hr hv
      · exact AddCredentialResult.noConfusion

end Membership

end Learned

/-! ### The handler -/

namespace PacketCredential

variable {ecc : Ecc} {known : KnownIdentities}

/-- What a network answers is what the membership answers. -/
theorem result_eq {n : Network} {c : PacketCredential} (h : c.networkId = n.id) :
    c.result ecc known n = ((n.membership c.member).accept ecc known c).1 := by
  have hadd : ∀ nwid a add, nwid = n.id →
      (n.addCredential nwid a add).1 = (add (n.membership a)).1 := by
    intro nwid a add hn
    unfold Network.addCredential
    rw [if_neg (not_not.mpr hn)]
  cases c with
  | com | capability | tag | revocation | coo => exact hadd _ _ _ h

/-- The event of a credential is what the membership of its member goes through. -/
theorem memberStep_event (n : Network) (a from_ : Address) (m : Membership) (c : PacketCredential) :
    n.memberStep ecc a m (c.event known from_) =
      if c.networkId = n.id ∧ c.member = a then (m.accept ecc known c).2 else m := by
  cases c with
  | com | capability | tag | revocation | coo => rfl

/-- The credentials of a member of a network. -/
def forMember (nwid : NetworkId) (a : Address) (cs : List PacketCredential) :
    List PacketCredential :=
  cs.filter fun c => c.networkId == nwid && c.member == a

theorem forMember_append (nwid : NetworkId) (a : Address) (cs ds : List PacketCredential) :
    forMember nwid a (cs ++ ds) = forMember nwid a cs ++ forMember nwid a ds :=
  List.filter_append _ _

end PacketCredential

open PacketCredential

/-- The credentials passed on among calls, with the answers. -/
def passedOn (calls : List CredentialsCall) : List (PacketCredential × AddCredentialResult) :=
  calls.filterMap fun
    | .passed c r _ => some (c, r)
    | .received _ _ => none

namespace CredentialsLoop

variable {RR : CredentialsEnvironment} {known : KnownIdentities}

variable (RR known) in
/-- **What one credential does to each membership.** -/
theorem membership_add (s : CredentialsLoop) (c : PacketCredential) (nwid : NetworkId)
    (a : Address) :
    (s.add RR known c).1.networks.membership nwid a =
      (s.networks.membership nwid a).map fun m =>
        m.acceptAll RR.ecc known (forMember nwid a [c]) := by
  unfold add
  rcases hget : s.networks.get c.networkId with - | n
  · dsimp only
    unfold JoinedNetworks.membership
    -- a network that was not joined has no memberships, and the others are left
    rcases hnwid : s.networks.get nwid with - | m
    · rfl
    · have hne : (c.networkId == nwid && c.member == a) = false := by
        refine Bool.and_eq_false_iff.mpr (Or.inl (beq_eq_false_iff_ne.mpr ?_))
        rintro rfl
        rw [hget] at hnwid
        cases hnwid
      unfold forMember
      rw [List.filter_cons, hne]
      rfl
  · dsimp only
    have hid := s.networks.filed _ _ hget
    unfold JoinedNetworks.membership
    rw [JoinedNetworks.get_set, Network.step_id]
    -- the network of the credential, and of it the member
    by_cases hnwid : nwid = n.id
    · have hn : s.networks.get nwid = some n := by
        rw [hnwid, hid]
        exact hget
      rw [if_pos hnwid, hn, Option.map_some, Option.map_some, Network.step_membership,
        memberStep_event]
      unfold forMember
      rw [List.filter_cons]
      by_cases hmember : c.networkId = n.id ∧ c.member = a
      · have hfor : (c.networkId == nwid && c.member == a) = true := by
          rw [hnwid, hmember.1, hmember.2, beq_self_eq_true, beq_self_eq_true]
          rfl
        rw [if_pos hmember, if_pos hfor]
        rfl
      · have hfor : ¬ (c.networkId == nwid && c.member == a) = true := by
          intro h
          obtain ⟨h₁, h₂⟩ := Bool.and_eq_true_iff.mp h
          exact hmember ⟨(beq_iff_eq.mp h₁).trans hnwid, beq_iff_eq.mp h₂⟩
        rw [if_neg hmember, if_neg hfor]
        rfl
    · rw [if_neg hnwid]
      have hfor : ¬ (c.networkId == nwid && c.member == a) = true := by
        intro h
        exact hnwid ((beq_iff_eq.mp (Bool.and_eq_true_iff.mp h).1).symm.trans hid.symm)
      unfold forMember
      rw [List.filter_cons, if_neg hfor]
      exact Option.map_id'.symm

theorem addAll_append (cs ds : List PacketCredential) (s : CredentialsLoop) :
    addAll RR known (cs ++ ds) s =
      if (addAll RR known cs s).2 then addAll RR known ds (addAll RR known cs s).1
      else addAll RR known cs s := by
  induction cs generalizing s with
  | nil => rfl
  | cons c cs ih =>
      rw [List.cons_append, addAll, addAll]
      by_cases hc : (s.add RR known c).2 = true
      · rw [if_pos hc, if_pos hc, ih]
      · rw [if_neg hc, if_neg hc, if_neg hc]

/-- What credentials that did not have to wait do to each membership. -/
theorem membership_addAll {cs : List PacketCredential} {s : CredentialsLoop}
    (h : (addAll RR known cs s).2 = true) (nwid : NetworkId) (a : Address) :
    (addAll RR known cs s).1.networks.membership nwid a =
      (s.networks.membership nwid a).map fun m =>
        m.acceptAll RR.ecc known (forMember nwid a cs) := by
  induction cs generalizing s with
  | nil => exact Option.map_id'.symm
  | cons c cs ih =>
      rw [addAll] at h ⊢
      by_cases hc : (s.add RR known c).2 = true
      · rw [if_pos hc] at h ⊢
        have hsplit : forMember nwid a (c :: cs) = forMember nwid a [c] ++ forMember nwid a cs :=
          forMember_append nwid a [c] cs
        rw [ih h, membership_add, Option.map_map, hsplit]
        refine congrArg₂ Option.map (funext fun m => ?_) rfl
        exact (acceptAll_append m _ _).symm
      · rw [if_neg hc] at h
        exact absurd h hc

/-- A node stays in its networks. -/
theorem joined_add (s : CredentialsLoop) (c : PacketCredential) (nwid : NetworkId) :
    ((s.add RR known c).1.networks.get nwid).isSome = (s.networks.get nwid).isSome := by
  have hmember := congrArg Option.isSome (membership_add RR known s c nwid 0)
  unfold JoinedNetworks.membership at hmember
  rwa [Option.isSome_map, Option.isSome_map, Option.isSome_map] at hmember

/-- **Every credential of a joined network is passed on**, as long as none has to wait. -/
theorem passedOn_addAll {cs : List PacketCredential} {s : CredentialsLoop}
    (h : (addAll RR known cs s).2 = true) :
    ∃ passed, passedOn (addAll RR known cs s).1.calls = passedOn s.calls ++ passed ∧
      passed.map Prod.fst = cs.filter (fun c => (s.networks.get c.networkId).isSome) ∧
      ∀ e ∈ passed, e.2 ≠ .deferredForWhois := by
  -- on the credentials: none of them may have to wait
  induction cs generalizing s with
  | nil => exact ⟨[], (List.append_nil _).symm, rfl, fun e he => absurd he List.not_mem_nil⟩
  | cons c cs ih =>
      rw [addAll] at h ⊢
      by_cases hc : (s.add RR known c).2 = true
      · rw [if_pos hc] at h ⊢
        obtain ⟨passed, hpassed, hfst, hanswers⟩ := ih h
        have hjoined : cs.filter (fun d => ((s.add RR known c).1.networks.get d.networkId).isSome)
            = cs.filter fun d => (s.networks.get d.networkId).isSome :=
          List.filter_congr fun d _ => joined_add s c d.networkId
        rw [hjoined] at hfst
        rw [hpassed, List.filter_cons]
        unfold add at hc ⊢
        rcases hget : s.networks.get c.networkId with - | n
        · exact ⟨passed, rfl, hfst, hanswers⟩
        · rw [hget] at hc
          refine ⟨(c, c.result RR.ecc known n) :: passed, ?_, ?_, fun e he => ?_⟩
          · dsimp only
            unfold passedOn
            rw [List.filterMap_append, List.append_assoc]
            rfl
          · rw [Option.isSome_some, if_pos rfl, List.map_cons, hfst]
          · rcases List.mem_cons.mp he with rfl | he
            · exact bne_iff_ne.mp hc
            · exact hanswers e he
      · rw [if_neg hc] at h
        exact absurd h hc

/-- Nothing waits when all signers are known. -/
theorem addAll_resolved {cs : List PacketCredential}
    (h : ∀ c ∈ cs, c.verify RR.ecc known ≠ .whois) (s : CredentialsLoop) :
    (addAll RR known cs s).2 = true := by
  induction cs generalizing s with
  | nil => rfl
  | cons c cs ih =>
      have hc : (s.add RR known c).2 = true := by
        unfold add
        rcases hget : s.networks.get c.networkId with - | n
        · rfl
        · refine bne_iff_ne.mpr ?_
          rw [result_eq (s.networks.filed _ _ hget).symm]
          exact accept_ne_deferred (h c List.mem_cons_self)
      rw [addAll, if_pos hc]
      exact ih (fun d hd => h d (List.mem_cons_of_mem c hd)) _

end CredentialsLoop

/-! ### The two attempts -/

theorem Membership.accept_deferred {ecc : Ecc} {known : KnownIdentities} {m : Membership}
    {c : PacketCredential} (h : (m.accept ecc known c).1 = .deferredForWhois) :
    (m.accept ecc known c).2 = m := by
  have himpl : ∀ {C : Type} [Credential C] [DecidableEq C] (remoteCreds : Hashtable UInt32 C)
      (revocations : Hashtable UInt64 Int64) (cred : C),
      (addCredImpl ecc known remoteCreds revocations cred).1 = .deferredForWhois →
      (addCredImpl ecc known remoteCreds revocations cred).2 = remoteCreds := by
    intro C _ _ remoteCreds revocations cred h
    unfold addCredImpl at h ⊢
    dsimp only at h ⊢
    split_ifs at h ⊢
    rcases hr : Credential.verify ecc known cred with - | - | -
    · rw [hr] at h
      cases h
    · rfl
    · rfl
  cases c with
  | com com =>
      change (m.addCom ecc known com).1 = _ at h
      rcases m.addCom_spec ecc known com with heq | ⟨hnew, -, -⟩
      · exact heq
      · rw [hnew] at h
        cases h
  | capability cap =>
      show { m with remoteCaps := (addCredImpl ecc known m.remoteCaps m.revocations cap).2 } = m
      rw [himpl m.remoteCaps m.revocations cap h]
  | tag tag =>
      show { m with remoteTags := (addCredImpl ecc known m.remoteTags m.revocations tag).2 } = m
      rw [himpl m.remoteTags m.revocations tag h]
  | coo coo =>
      show { m with remoteCoos := (addCredImpl ecc known m.remoteCoos m.revocations coo).2 } = m
      rw [himpl m.remoteCoos m.revocations coo h]
  | revocation rev =>
      change (m.addRevocation ecc known rev).1 = _ at h
      show (m.addRevocation ecc known rev).2 = m
      unfold addRevocation at h ⊢
      rcases hr : rev.verify ecc known with - | - | -
      · rw [hr] at h
        dsimp only at h
        split_ifs at h
      · rfl
      · rfl

namespace CredentialsLoop

variable {RR : CredentialsEnvironment} {known known' : KnownIdentities}

/-- A credential that has to wait changes no membership. -/
theorem membership_add_waits {s : CredentialsLoop} {c : PacketCredential}
    (h : (s.add RR known c).2 = false) (nwid : NetworkId) (a : Address) :
    (s.add RR known c).1.networks.membership nwid a = s.networks.membership nwid a := by
  rw [membership_add]
  unfold add at h
  rcases hget : s.networks.get c.networkId with - | n
  · rw [hget] at h
    cases h
  · rw [hget] at h
    have hr := bne_eq_false_iff_eq.mp h
    rw [result_eq (s.networks.filed _ _ hget).symm] at hr
    unfold forMember
    rw [List.filter_cons]
    by_cases hfor : (c.networkId == nwid && c.member == a) = true
    · obtain ⟨hnwid, ha⟩ := Bool.and_eq_true_iff.mp hfor
      rw [if_pos hfor]
      unfold JoinedNetworks.membership
      rw [← beq_iff_eq.mp hnwid, ← beq_iff_eq.mp ha, hget, Option.map_some, Option.map_some]
      exact congrArg some (accept_deferred hr)
    · rw [if_neg hfor]
      exact Option.map_id'

/-- What did not have to wait is added alike when more identities are known. -/
theorem add_learned (h : Learned known known') {s : CredentialsLoop} {c : PacketCredential}
    (hc : (s.add RR known c).2 = true) : s.add RR known' c = s.add RR known c := by
  unfold add at hc ⊢
  rcases hget : s.networks.get c.networkId with - | n
  · rfl
  · rw [hget] at hc
    have hid := s.networks.filed _ _ hget
    have hr := bne_iff_ne.mp hc
    rw [result_eq hid.symm] at hr
    have haccept := accept_learned h hr
    have hadd : ∀ (nwid : NetworkId) (a : Address) (add add' : Membership → _),
        nwid = n.id → add' (n.membership a) = add (n.membership a) →
        n.addCredential nwid a add' = n.addCredential nwid a add := by
      intro nwid a add add' _ heq
      unfold Network.addCredential
      rw [heq]
    cases c with
    | com com =>
        have heq : n.addCom RR.ecc known' com = n.addCom RR.ecc known com :=
          hadd _ _ _ _ hid.symm haccept
        simp only [result, event, Network.machine, heq]
    | capability cap =>
        have heq : n.addCapability RR.ecc known' cap = n.addCapability RR.ecc known cap :=
          hadd _ _ _ _ hid.symm haccept
        simp only [result, event, Network.machine, heq]
    | tag tag =>
        have heq : n.addTag RR.ecc known' tag = n.addTag RR.ecc known tag :=
          hadd _ _ _ _ hid.symm haccept
        simp only [result, event, Network.machine, heq]
    | coo coo =>
        have heq : n.addCoo RR.ecc known' coo = n.addCoo RR.ecc known coo :=
          hadd _ _ _ _ hid.symm haccept
        simp only [result, event, Network.machine, heq]
    | revocation rev =>
        have heq : n.addRevocation RR.ecc known' rev = n.addRevocation RR.ecc known rev :=
          hadd _ _ _ _ hid.symm haccept
        simp only [result, event, Network.machine, heq]

theorem addAll_learned (h : Learned known known') {cs : List PacketCredential} {s : CredentialsLoop}
    (hcs : (addAll RR known cs s).2 = true) : addAll RR known' cs s = addAll RR known cs s := by
  induction cs generalizing s with
  | nil => rfl
  | cons c cs ih =>
      rw [addAll] at hcs ⊢
      rw [addAll]
      by_cases hc : (s.add RR known c).2 = true
      · rw [if_pos hc] at hcs
        rw [add_learned h hc, if_pos hc, if_pos hc]
        exact ih hcs
      · rw [if_neg hc] at hcs
        exact absurd hcs hc

/-- The credentials `before` are added, and the next one, `c`, has to wait. -/
def WaitsAt (RR : CredentialsEnvironment) (known : KnownIdentities) (s : CredentialsLoop)
    (before : List PacketCredential) (c : PacketCredential) : Prop :=
  (addAll RR known before s).2 = true ∧ ((addAll RR known before s).1.add RR known c).2 = false

/-- Where credentials stop. -/
theorem exists_waitsAt {cs : List PacketCredential} {s : CredentialsLoop}
    (h : (addAll RR known cs s).2 = false) :
    ∃ before c left, cs = before ++ c :: left ∧ WaitsAt RR known s before c ∧
      addAll RR known cs s = (addAll RR known before s).1.add RR known c := by
  -- on the credentials, up to the first one that has to wait
  induction cs generalizing s with
  | nil => cases h
  | cons c cs ih =>
      rw [addAll] at h ⊢
      by_cases hc : (s.add RR known c).2 = true
      · rw [if_pos hc] at h ⊢
        obtain ⟨before, d, left, rfl, ⟨hbefore, hd⟩, heq⟩ := ih h
        have hstep :
            addAll RR known (c :: before) s = addAll RR known before (s.add RR known c).1 := by
          rw [addAll, if_pos hc]
        refine ⟨c :: before, d, left, rfl, ⟨?_, ?_⟩, ?_⟩
        · rw [hstep]
          exact hbefore
        · rw [hstep]
          exact hd
        · rw [hstep]
          exact heq
      · rw [if_neg hc]
        exact ⟨[], c, cs, rfl, ⟨rfl, Bool.eq_false_iff.mpr hc⟩, rfl⟩

/-- They stop at one place only. -/
theorem waitsAt_unique {before before' left left' : List PacketCredential} {c c' : PacketCredential}
    {s : CredentialsLoop} (heq : before ++ c :: left = before' ++ c' :: left')
    (h : WaitsAt RR known s before c) (h' : WaitsAt RR known s before' c') :
    before = before' ∧ c = c' ∧ left = left' := by
  -- otherwise the one that is stopped at first would have been added on the way to the other
  have hnot : ∀ {before c rest d}, WaitsAt RR known s before c →
      ¬ WaitsAt RR known s (before ++ c :: rest) d := by
    intro before c rest d hc hd
    have hadded := hd.1
    rw [addAll_append, if_pos hc.1, addAll, if_neg (Bool.eq_false_iff.mp hc.2)] at hadded
    rw [hc.2] at hadded
    cases hadded
  rcases List.append_eq_append_iff.mp heq with ⟨rest, rfl, hrest⟩ | ⟨rest, rfl, hrest⟩
  · rcases rest with - | ⟨d, rest⟩
    · obtain ⟨rfl, rfl⟩ := List.cons.inj hrest
      exact ⟨(List.append_nil _).symm, rfl, rfl⟩
    · obtain ⟨rfl, -⟩ := List.cons.inj hrest
      exact absurd h' (hnot h)
  · rcases rest with - | ⟨d, rest⟩
    · obtain ⟨rfl, rfl⟩ := List.cons.inj hrest
      exact ⟨List.append_nil _, rfl, rfl⟩
    · obtain ⟨rfl, -⟩ := List.cons.inj hrest
      exact absurd h (hnot h')

end CredentialsLoop

open CredentialsLoop

/-- A packet that was deferred is not lost: when it is tried again with the signers known, each of
its credentials of a joined network is passed on and does not have to wait, and the memberships
come out as if they had been known in the first place. -/
structure Kept (b : Bytes) (networks : JoinedNetworks) (retried single : CredentialsAttempt) :
    Prop where
  passed : (passedOn retried.calls).map Prod.fst
    = (credentialsOf b).filter fun c => (networks.get c.networkId).isSome
  answered : ∀ e ∈ passedOn retried.calls, e.2 ≠ .deferredForWhois
  same : ∀ nwid a, Option.Rel Membership.Same (retried.state.networks.membership nwid a)
    (single.state.networks.membership nwid a)

/-- The memberships are settled after an attempt from the networks `s` that had to wait. -/
def AllSettled (RR : CredentialsEnvironment) (known known' : KnownIdentities) (b : Bytes)
    (s networks : JoinedNetworks) : Prop :=
  ∀ before c left, credentialsOf b = before ++ c :: left →
    WaitsAt RR known ⟨false, 0, s, []⟩ before c →
    ∀ nwid a m, networks.membership nwid a = some m →
      m.Settled RR.ecc known' (forMember nwid a before) (forMember nwid a (c :: left))

/-- The certificates of membership of a packet come first. -/
theorem comsFirst_credentialsOf (b : Bytes) : ComsFirst (credentialsOf b) := by
  have hall : ∀ {cs : List PacketCredential}, (∀ c ∈ cs, ∃ com, c = .com com) → ComsFirst cs :=
    fun h => List.Pairwise.imp_of_mem (fun hc _ _ _ => h _ hc)
      (List.pairwise_of_forall fun _ _ => trivial)
  unfold credentialsOf readCredentials
  dsimp only
  have hcoms : ∀ c ∈ (readComs b b.length protoMinPacketLength).1, ∃ com, c = .com com :=
    fun c => mem_readComs
  rcases hpos : (readComs b b.length protoMinPacketLength).2 with - | pos
  · exact hall hcoms
  · dsimp only
    split_ifs with hmore
    · -- none of them is in the rows that follow
      refine List.pairwise_append.mpr ⟨hall hcoms, ?_, fun c hc _ _ _ => hcoms c hc⟩
      refine List.Pairwise.imp_of_mem (fun _ hd _ hcom => ?_)
        (List.pairwise_of_forall fun _ _ => trivial)
      obtain ⟨com, rfl⟩ := hcom
      obtain ⟨read, hread, p, q, h⟩ := mem_readRows hd
      exact absurd rfl (ne_com_of_mem_rowReaders hread h com)
    · exact hall hcoms

section Attempts

variable {RR : CredentialsEnvironment} {known known' : KnownIdentities} {now : Int64}
  {s : CredentialsState} {b : Bytes}

theorem doNetworkCredentials_closed
    (h : rateGateCredentialsReceived s.lastCredentialsReceived now = false) :
    doNetworkCredentials RR known now s b = ⟨s, [], some true⟩ := by
  rw [doNetworkCredentials, h]
  rfl

variable (RR known b) in
/-- What an attempt does that passes the gate. -/
theorem doNetworkCredentials_open
    (h : rateGateCredentialsReceived s.lastCredentialsReceived now = true) :
    (doNetworkCredentials RR known now s b).state.networks
        = (addAll RR known (credentialsOf b) ⟨false, 0, s.networks, []⟩).1.networks ∧
      passedOn (doNetworkCredentials RR known now s b).calls
        = passedOn (addAll RR known (credentialsOf b) ⟨false, 0, s.networks, []⟩).1.calls ∧
      ((doNetworkCredentials RR known now s b).answer = some false →
        (addAll RR known (credentialsOf b) ⟨false, 0, s.networks, []⟩).2 = false) := by
  unfold credentialsOf
  rw [doNetworkCredentials, h, if_neg (show ¬ (!true) = true from Bool.false_ne_true)]
  dsimp only
  by_cases hadded : (addAll RR known (readCredentials b).1 ⟨false, 0, s.networks, []⟩).2 = true
  · rw [if_pos hadded]
    rcases (readCredentials b).2 with - | - | -
    · refine ⟨rfl, ?_, fun hanswer => by cases hanswer⟩
      unfold passedOn
      rw [List.filterMap_append]
      exact List.append_nil _
    · exact ⟨rfl, rfl, fun hanswer => by cases hanswer⟩
    · exact ⟨rfl, rfl, fun hanswer => by cases hanswer⟩
  · rw [if_neg hadded]
    exact ⟨rfl, rfl, fun _ => Bool.eq_false_iff.mpr hadded⟩

/-- What an attempt does that passes the gate with the signers known. -/
theorem doNetworkCredentials_resolved
    (h : rateGateCredentialsReceived s.lastCredentialsReceived now = true)
    (hresolved : ∀ c ∈ credentialsOf b, c.verify RR.ecc known ≠ .whois) :
    (∀ nwid a, (doNetworkCredentials RR known now s b).state.networks.membership nwid a =
        (s.networks.membership nwid a).map fun m =>
          m.acceptAll RR.ecc known (forMember nwid a (credentialsOf b))) ∧
      (passedOn (doNetworkCredentials RR known now s b).calls).map Prod.fst
        = (credentialsOf b).filter (fun c => (s.networks.get c.networkId).isSome) ∧
      ∀ e ∈ passedOn (doNetworkCredentials RR known now s b).calls, e.2 ≠ .deferredForWhois := by
  obtain ⟨hnetworks, hcalls, -⟩ := doNetworkCredentials_open RR known b h
  have hadded := addAll_resolved hresolved ⟨false, 0, s.networks, []⟩
  obtain ⟨passed, hpassed, hfst, hanswers⟩ := passedOn_addAll hadded
  rw [hnetworks, hcalls, hpassed]
  exact ⟨membership_addAll hadded, hfst, hanswers⟩

/-- What an attempt does that has to wait. -/
theorem doNetworkCredentials_deferred (hlearned : Learned known known')
    (hdeferred : (doNetworkCredentials RR known now s b).answer = some false) :
    rateGateCredentialsReceived s.lastCredentialsReceived now = true ∧
      ∃ before c left, credentialsOf b = before ++ c :: left ∧
        WaitsAt RR known ⟨false, 0, s.networks, []⟩ before c ∧
        ((doNetworkCredentials RR known now s b).state.networks.get c.networkId).isSome = true ∧
        ∀ nwid a, (doNetworkCredentials RR known now s b).state.networks.membership nwid a =
          (s.networks.membership nwid a).map fun m =>
            m.acceptAll RR.ecc known' (forMember nwid a before) := by
  have hgate : rateGateCredentialsReceived s.lastCredentialsReceived now = true := by
    by_contra hclosed
    rw [doNetworkCredentials_closed (Bool.eq_false_iff.mpr hclosed)] at hdeferred
    cases hdeferred
  obtain ⟨hnetworks, -, hanswer⟩ := doNetworkCredentials_open RR known b hgate
  obtain ⟨before, c, left, hsplit, hwaits, hlast⟩ := exists_waitsAt (hanswer hdeferred)
  have hbefore := addAll_learned hlearned hwaits.1
  refine ⟨hgate, before, c, left, hsplit, hwaits, ?_, fun nwid a => ?_⟩
  · rw [hnetworks, hlast, joined_add]
    have hwait := hwaits.2
    unfold CredentialsLoop.add at hwait
    rcases hget : (addAll RR known before ⟨false, 0, s.networks, []⟩).1.networks.get c.networkId
      with - | n
    · rw [hget] at hwait
      cases hwait
    · rfl
  · rw [hnetworks, hlast, membership_add_waits hwaits.2, ← hbefore,
      membership_addAll (by rw [hbefore]; exact hwaits.1)]

end Attempts

/-- Being kept, in terms of what the attempts do. -/
theorem kept_iff {RR : CredentialsEnvironment} {known known' : KnownIdentities} {b : Bytes}
    {networks₀ networks : JoinedNetworks} {retried single : CredentialsAttempt} {pass : Bool}
    {before left : List PacketCredential} {c : PacketCredential}
    (hsplit : credentialsOf b = before ++ c :: left)
    (hwaits : WaitsAt RR known ⟨false, 0, networks₀, []⟩ before c)
    (hjoined : (networks.get c.networkId).isSome = true)
    (hmid : ∀ nwid a, networks.membership nwid a = (networks₀.membership nwid a).map fun m =>
      m.acceptAll RR.ecc known' (forMember nwid a before))
    (hsingle : ∀ nwid a, single.state.networks.membership nwid a =
      (networks₀.membership nwid a).map fun m =>
        m.acceptAll RR.ecc known' (forMember nwid a (credentialsOf b)))
    (hclosed : pass = false → retried.calls = [])
    (hopen : pass = true → (∀ nwid a, retried.state.networks.membership nwid a =
        (networks.membership nwid a).map fun m =>
          m.acceptAll RR.ecc known' (forMember nwid a (credentialsOf b))) ∧
      (passedOn retried.calls).map Prod.fst
        = (credentialsOf b).filter (fun c => (networks.get c.networkId).isSome) ∧
      ∀ e ∈ passedOn retried.calls, e.2 ≠ .deferredForWhois) :
    Kept b networks retried single ↔
      pass = true ∧ AllSettled RR known known' b networks₀ networks := by
  -- the credential that has to wait is the only one, so that the packet splits in one way
  have hsettled : AllSettled RR known known' b networks₀ networks ↔
      ∀ nwid a m, networks₀.membership nwid a = some m →
        (m.acceptAll RR.ecc known' (forMember nwid a before)).Settled RR.ecc known'
          (forMember nwid a before) (forMember nwid a (c :: left)) := by
    constructor
    · intro h nwid a m hm
      exact h before c left hsplit hwaits nwid a _ (by rw [hmid, hm]; rfl)
    · intro h before' c' left' hsplit' hwaits' nwid a m hm
      obtain ⟨rfl, rfl, rfl⟩ := waitsAt_unique (hsplit.symm.trans hsplit') hwaits hwaits'
      rw [hmid, Option.map_eq_some_iff] at hm
      obtain ⟨m₀, hm₀, rfl⟩ := hm
      exact h nwid a m₀ hm₀
  have hmember : ∀ nwid a, forMember nwid a (credentialsOf b)
      = forMember nwid a before ++ forMember nwid a (c :: left) := fun nwid a => by
    rw [hsplit, forMember_append]
  have hfirst : ∀ nwid a, ComsFirst (forMember nwid a before ++ forMember nwid a (c :: left)) :=
    fun nwid a => by
      rw [← hmember]
      exact (comsFirst_credentialsOf b).filter _
  rw [hsettled]
  constructor
  · intro h
    -- behind a closed gate nothing is passed on, not even the one that waited
    have hpass : pass = true := by
      by_contra hnot
      have hnothing := h.passed
      rw [hclosed (Bool.eq_false_iff.mpr hnot), hsplit, List.filter_append, List.filter_cons,
        if_pos hjoined] at hnothing
      exact absurd hnothing.symm (List.append_ne_nil_of_right_ne_nil _ (List.cons_ne_nil _ _))
    refine ⟨hpass, fun nwid a m hm => ?_⟩
    have hsame := h.same nwid a
    rw [(hopen hpass).1, hsingle, hmid, hm, hmember] at hsame
    -- the memberships as they are after both attempts
    rcases hsame with ⟨hsame⟩ | -
    exact (again_same_iff m (hfirst nwid a)).mp hsame
  · rintro ⟨hpass, h⟩
    refine ⟨(hopen hpass).2.1, (hopen hpass).2.2, fun nwid a => ?_⟩
    rw [(hopen hpass).1, hsingle, hmid, hmember]
    rcases hm : networks₀.membership nwid a with - | m
    · exact Option.Rel.none
    · exact Option.Rel.some ((again_same_iff m (hfirst nwid a)).mpr (h nwid a m hm))

/-- **A deferred packet is kept** exactly when the rate gate lets the second attempt pass and the
memberships are settled. -/
theorem credentials_kept_iff (RR : CredentialsEnvironment) (known known' : KnownIdentities)
    (now now' last' : Int64) (s : CredentialsState) (b : Bytes)
    (hdeferred : (doNetworkCredentials RR known now s b).answer = some false)
    (hlearned : Learned known known')
    (hresolved : ∀ c ∈ credentialsOf b, c.verify RR.ecc known' ≠ .whois) :
    Kept b (doNetworkCredentials RR known now s b).state.networks
        (doNetworkCredentials RR known' now'
          ⟨last', (doNetworkCredentials RR known now s b).state.networks⟩ b)
        (doNetworkCredentials RR known' now s b) ↔
      rateGateCredentialsReceived last' now' = true ∧
        AllSettled RR known known' b s.networks
          (doNetworkCredentials RR known now s b).state.networks := by
  obtain ⟨hgate, before, c, left, hsplit, hwaits, hjoined, hmid⟩ :=
    doNetworkCredentials_deferred hlearned hdeferred
  have hsingle := (doNetworkCredentials_resolved (s := s) hgate hresolved).1
  generalize (doNetworkCredentials RR known now s b).state.networks = networks at hjoined hmid ⊢
  refine kept_iff hsplit hwaits hjoined hmid hsingle (fun hclosed => ?_) fun hpass => ?_
  · rw [doNetworkCredentials_closed (s := ⟨last', networks⟩) hclosed]
  · exact doNetworkCredentials_resolved (s := ⟨last', networks⟩) hpass hresolved

/-! ### A reply that comes at once -/

/-- Node 2 in the network 0x1000001. -/
def waitingNetworks : JoinedNetworks where
  table := (Hashtable.empty 64 Hashtable.buckets_pos).set 0x1000001 (Network.initial 0x1000001)
  filed := by
    intro nwid n hn
    rw [Hashtable.get_set, Hashtable.get_empty] at hn
    split_ifs at hn with h
    · cases hn
      exact h.symm

/-- The node gets credentials from node 5, signatures being trusted. -/
def awaitingNode : CredentialsEnvironment := ⟨Network.trustingEcc, 2, 5⟩

/-- The node has had no credentials from its peer. -/
def waitingState : CredentialsState := ⟨0, waitingNetworks⟩

/-- Nobody is known. -/
def nobody : KnownIdentities := fun _ => none

/-- A certificate of membership of node 5. -/
def waitingCom : CertificateOfMembership where
  qualifiers := [⟨0, 60, 100⟩, ⟨1, 0x1000001, 0⟩, ⟨2, 5, 0⟩]
  signedBy := 1
  signature := List.replicate 96 7

/-- A packet with that certificate only. -/
def waitingPacket : Bytes :=
  List.replicate 28 0 ++ [1] ++ beBytes 2 3 ++ waitingCom.forSign ++ Address.toBytes 1
    ++ List.replicate 96 7

theorem credentialsOf_waitingPacket : credentialsOf waitingPacket = [.com waitingCom] := by
  decide +kernel

theorem waitingPacket_deferred :
    (doNetworkCredentials awaitingNode nobody 1000 waitingState waitingPacket).answer
      = some false := by
  decide +kernel

theorem waitingPacket_joined :
    ((doNetworkCredentials awaitingNode nobody 1000 waitingState waitingPacket).state.networks.get
      (PacketCredential.com waitingCom).networkId).isSome = true := by
  decide +kernel

theorem learned_nobody (known : KnownIdentities) : Learned nobody known := by
  intro a id h
  cases h

theorem waitingPacket_resolved : ∀ c ∈ credentialsOf waitingPacket,
    c.verify awaitingNode.ecc Network.everybody ≠ .whois := by
  intro c hc
  rw [credentialsOf_waitingPacket] at hc
  obtain rfl := List.mem_singleton.mp hc
  decide +kernel

/-- A reply that comes after a second lets the packet through. -/
theorem waitingPacket_kept :
    Kept waitingPacket
      (doNetworkCredentials awaitingNode nobody 1000 waitingState waitingPacket).state.networks
      (doNetworkCredentials awaitingNode Network.everybody 2000 ⟨1000, (doNetworkCredentials
        awaitingNode nobody 1000 waitingState waitingPacket).state.networks⟩ waitingPacket)
      (doNetworkCredentials awaitingNode Network.everybody 1000 waitingState waitingPacket) := by
  refine (credentials_kept_iff awaitingNode nobody Network.everybody 1000 2000 1000 waitingState
    waitingPacket waitingPacket_deferred (learned_nobody _) waitingPacket_resolved).mpr
    ⟨by decide, ?_⟩
  intro before c left hsplit hwaits nwid a m hm
  rw [credentialsOf_waitingPacket] at hsplit
  -- nothing comes before the certificate
  have hbefore : before = [] := by
    rcases before with - | ⟨d, before⟩
    · rfl
    · have hlen := congrArg List.length hsplit
      simp only [List.length_append, List.length_cons, List.length_nil] at hlen
      omega
  rw [hbefore]
  exact ⟨newest_nil _ _ _, Or.inr fun rev hrev => absurd hrev.1 List.not_mem_nil⟩

/-- **A packet is lost** when the reply comes within a second: the retry is stopped at the rate
gate by the packet's own first attempt. -/
theorem credentials_lost : ¬ ∀ (RR : CredentialsEnvironment) (known known' : KnownIdentities)
    (now now' last' : Int64) (s : CredentialsState) (b : Bytes),
    (doNetworkCredentials RR known now s b).answer = some false → Learned known known' →
    (∀ c ∈ credentialsOf b, c.verify RR.ecc known' ≠ .whois) →
    Kept b (doNetworkCredentials RR known now s b).state.networks
      (doNetworkCredentials RR known' now'
        ⟨last', (doNetworkCredentials RR known now s b).state.networks⟩ b)
      (doNetworkCredentials RR known' now s b) := by
  intro h
  have hpassed := (h awaitingNode nobody Network.everybody 1000 1100 1000 waitingState waitingPacket
    waitingPacket_deferred (learned_nobody _) waitingPacket_resolved).passed
  rw [doNetworkCredentials_closed (s := ⟨1000, _⟩) (by decide), credentialsOf_waitingPacket,
    List.filter_cons, if_pos waitingPacket_joined] at hpassed
  cases hpassed

end ZGalaxy
