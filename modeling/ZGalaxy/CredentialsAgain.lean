/-
ZGalaxy/CredentialsAgain.lean

Adding credentials to a membership a second time.

What is kept by id is not changed by that: thresholds by credential only rise, so what the second
time would take is what the first one took, and each register holds the newest of its kind already
(`IsSlot.newest_kept`).  Only the threshold of the certificate of membership can have fallen in
between, where a revocation of another kind replaced it; `Settled` says when nothing comes of that.

Main result: `again_same_iff`.
-/
import ZGalaxy.CredentialsPacket
import ZGalaxy.Revoked

namespace ZGalaxy

open ByteList
open ZGalaxy.Membership

/-! ### One credential after another -/

namespace Membership

variable (ecc : Ecc) (known : KnownIdentities)

/-- Adding a credential of a packet to the membership it is filed under. -/
def accept (m : Membership) : PacketCredential → AddCredentialResult × Membership
  | .com com => m.addCom ecc known com
  | .capability cap => m.addCapability ecc known cap
  | .tag tag => m.addTag ecc known tag
  | .revocation rev => m.addRevocation ecc known rev
  | .coo coo => m.addCoo ecc known coo

/-- The membership after several credentials. -/
def acceptAll (m : Membership) (cs : List PacketCredential) : Membership :=
  cs.foldl (fun m c => (m.accept ecc known c).2) m

/-- Two memberships that keep the same by id. -/
structure SameKept (m m' : Membership) : Prop where
  lastUpdatedMulticast : m.lastUpdatedMulticast = m'.lastUpdatedMulticast
  revocations : ∀ key, m.revocations.get key = m'.revocations.get key
  remoteTags : ∀ id, m.remoteTags.get id = m'.remoteTags.get id
  remoteCaps : ∀ id, m.remoteCaps.get id = m'.remoteCaps.get id
  remoteCoos : ∀ id, m.remoteCoos.get id = m'.remoteCoos.get id

/-- Two memberships that answer every question alike. -/
structure Same (m m' : Membership) : Prop extends SameKept m m' where
  comRevocationThreshold : m.comRevocationThreshold = m'.comRevocationThreshold
  com : m.com = m'.com

/-- A certificate of membership that verifies and is above the threshold. -/
def admitsCom (m : Membership) (com : CertificateOfMembership) : Bool :=
  m.comRevocationThreshold < com.timestamp && com.verify ecc known == .ok

/-- The certificates of membership among credentials. -/
def coms (cs : List PacketCredential) : List CertificateOfMembership :=
  cs.filterMap fun
    | .com com => some com
    | _ => none

/-- A revocation of certificates of membership that verifies. -/
def RevokesCom (cs : List PacketCredential) (rev : Revocation) : Prop :=
  .revocation rev ∈ cs ∧ rev.verify ecc known = .ok ∧ rev.type = CredentialType.com

/-- A revocation of another kind that verifies and raises the threshold of its credential. -/
def Raises (m : Membership) (cs : List PacketCredential) (rev : Revocation) : Prop :=
  .revocation rev ∈ cs ∧ rev.verify ecc known = .ok ∧ keptById rev.type = true ∧
    (m.revocations.get (credentialKey rev.type rev.credentialId)).getD 0 < rev.threshold

/-- The credentials `before` may be added to the membership again, before those that are `left`:
its certificate is the newest of theirs, and its threshold is as high as theirs, unless `left`
brings one that is as high or replaces it. -/
structure Settled (m : Membership) (before left : List PacketCredential) : Prop where
  com : Newest (fun com => com.timestamp.toInt) (m.admitsCom ecc known) (coms before) (some m.com)
  threshold : (∃ rev, m.Raises ecc known left rev) ∨
    ∀ rev, RevokesCom ecc known before rev → rev.threshold ≤ m.comRevocationThreshold ∨
      ∃ rev', RevokesCom ecc known left rev' ∧ rev.threshold ≤ rev'.threshold

variable {ecc known}

@[simp] theorem acceptAll_nil (m : Membership) : m.acceptAll ecc known [] = m := rfl

@[simp] theorem acceptAll_cons (m : Membership) (c : PacketCredential)
    (cs : List PacketCredential) :
    m.acceptAll ecc known (c :: cs) = (m.accept ecc known c).2.acceptAll ecc known cs := rfl

theorem acceptAll_append (m : Membership) (cs ds : List PacketCredential) :
    m.acceptAll ecc known (cs ++ ds) = (m.acceptAll ecc known cs).acceptAll ecc known ds :=
  List.foldl_append

/-! ### What each kind of credential changes -/

/-- A credential that verifies and is not revoked. -/
def admitsCred {C : Type} [Credential C] (ecc : Ecc) (known : KnownIdentities)
    (revocations : Hashtable UInt64 Int64) (cred : C) : Bool :=
  !isRevoked revocations cred && Credential.verify ecc known cred == .ok

/-- The register of an id is shown the credentials with that id. -/
theorem get_addCredImpl {C : Type} [Credential C] [DecidableEq C] (remoteCreds : Hashtable UInt32 C)
    (revocations : Hashtable UInt64 Int64) (cred : C) (id : UInt32) :
    (addCredImpl ecc known remoteCreds revocations cred).2.get id =
      if id = Credential.id cred then
        keep (fun cred => (Credential.timestamp cred).toInt) (admitsCred ecc known revocations)
          (remoteCreds.get id) cred
      else remoteCreds.get id := by
  by_cases hid : id = Credential.id cred
  · subst hid
    rw [if_pos rfl]
    unfold addCredImpl keep admitsCred
    rcases hrc : remoteCreds.get (Credential.id cred) with - | x
    all_goals dsimp only
    · -- the register is empty
      rw [Option.any_none, if_neg Bool.false_ne_true, if_neg (Option.some_ne_none cred).symm]
      by_cases hrev : isRevoked revocations cred = true
      · rw [if_pos hrev, hrev]
        exact hrc
      · rw [if_neg hrev, Bool.eq_false_iff.mpr hrev]
        rcases Credential.verify ecc known cred with - | - | -
        · exact (Hashtable.get_set _ _ _ _).trans (if_pos rfl)
        · exact hrc
        · exact hrc
    · -- it holds another: an older credential is refused, the same one is kept
      rw [Option.any_some, Option.all_some]
      by_cases hlt : Credential.timestamp cred < Credential.timestamp x
      · rw [if_pos (decide_eq_true hlt), decide_eq_false
          (not_le.mpr (Int64.lt_iff_toInt_lt.mp hlt)), Bool.and_false]
        exact hrc
      · rw [if_neg (fun h => hlt (of_decide_eq_true h)), decide_eq_true
          (not_lt.mp fun h => hlt (Int64.lt_iff_toInt_lt.mpr h)), Bool.and_true]
        by_cases heq : some x = some cred
        · rw [if_pos heq, hrc, heq, ite_self]
        · rw [if_neg heq]
          by_cases hrev : isRevoked revocations cred = true
          · rw [if_pos hrev, hrev]
            exact hrc
          · rw [if_neg hrev, Bool.eq_false_iff.mpr hrev]
            rcases Credential.verify ecc known cred with - | - | -
            · exact (Hashtable.get_set _ _ _ _).trans (if_pos rfl)
            · exact hrc
            · exact hrc
  · rw [if_neg hid]
    unfold addCredImpl
    dsimp only
    split_ifs
    · rfl
    · rfl
    · rfl
    · rcases Credential.verify ecc known cred with - | - | -
      · exact (Hashtable.get_set _ _ _ _).trans (if_neg hid)
      · rfl
      · rfl

/-- So is the register of the certificate of membership. -/
theorem com_addCom (m : Membership) (com : CertificateOfMembership) :
    some (m.addCom ecc known com).2.com =
      keep (fun com => com.timestamp.toInt) (m.admitsCom ecc known) (some m.com) com := by
  unfold addCom keep admitsCom
  rw [Option.all_some]
  by_cases hrev : com.timestamp ≤ m.comRevocationThreshold
  · rw [if_pos hrev, decide_eq_false (Int64.not_lt.mpr hrev)]
    rfl
  · rw [if_neg hrev, decide_eq_true (Int64.not_le.mp hrev), Bool.true_and]
    by_cases hlt : com.timestamp < m.com.timestamp
    · rw [if_pos hlt, decide_eq_false (not_le.mpr (Int64.lt_iff_toInt_lt.mp hlt)), Bool.and_false]
      rfl
    · rw [if_neg hlt, decide_eq_true (not_lt.mp fun h => hlt (Int64.lt_iff_toInt_lt.mpr h)),
        Bool.and_true]
      by_cases heq : m.com = com
      · rw [if_pos heq, heq, ite_self]
      · rw [if_neg heq]
        rcases com.verify ecc known with - | - | -
        · rfl
        · rfl
        · rfl

/-! ### Thresholds -/

variable (ecc known) in
/-- What a revocation does. -/
theorem addRevocation_cases (m : Membership) (rev : Revocation) :
    (rev.verify ecc known = .ok ∧ rev.type = CredentialType.com ∧
        (m.addRevocation ecc known rev).2 = { m with
          comRevocationThreshold := if m.comRevocationThreshold < rev.threshold then rev.threshold
            else m.comRevocationThreshold }) ∨
      (rev.verify ecc known = .ok ∧ keptById rev.type = true ∧
        (m.revocations.get (credentialKey rev.type rev.credentialId)).getD 0 < rev.threshold ∧
        (m.addRevocation ecc known rev).2 = { m with
          revocations := m.revocations.set (credentialKey rev.type rev.credentialId) rev.threshold
          comRevocationThreshold := rev.threshold }) ∨
      (rev.verify ecc known = .ok ∧ keptById rev.type = true ∧
        ¬ (m.revocations.get (credentialKey rev.type rev.credentialId)).getD 0 < rev.threshold ∧
        (m.addRevocation ecc known rev).2 = { m with
          revocations := m.revocations.set (credentialKey rev.type rev.credentialId)
            ((m.revocations.get (credentialKey rev.type rev.credentialId)).getD 0) }) ∨
      (¬ (rev.verify ecc known = .ok ∧ (rev.type = CredentialType.com ∨ keptById rev.type = true)) ∧
        (m.addRevocation ecc known rev).2 = m) := by
  unfold addRevocation
  rcases rev.verify ecc known with - | - | - <;> dsimp only
  · by_cases hcom : rev.type = CredentialType.com
    · rw [if_pos hcom]
      refine Or.inl ⟨rfl, hcom, ?_⟩
      split_ifs <;> rfl
    · rw [if_neg hcom]
      by_cases hkept : keptById rev.type = true
      · rw [if_pos hkept]
        by_cases hlt : (m.revocations.get (credentialKey rev.type rev.credentialId)).getD 0
            < rev.threshold
        · rw [if_pos hlt]
          exact Or.inr (Or.inl ⟨rfl, hkept, hlt, rfl⟩)
        · rw [if_neg hlt]
          exact Or.inr (Or.inr (Or.inl ⟨rfl, hkept, hlt, rfl⟩))
      · rw [if_neg hkept]
        refine Or.inr (Or.inr (Or.inr ⟨fun h => ?_, rfl⟩))
        rcases h.2 with h | h
        · exact hcom h
        · exact hkept h
  · exact Or.inr (Or.inr (Or.inr ⟨fun h => (by cases h.1), rfl⟩))
  · exact Or.inr (Or.inr (Or.inr ⟨fun h => (by cases h.1), rfl⟩))

/-- Certificates of membership are not kept by id. -/
theorem not_com_of_keptById {t : CredentialType} (h : keptById t = true) :
    t ≠ CredentialType.com := by
  rintro rfl
  exact absurd h (by decide)

variable (ecc known) in
/-- Credentials that are no revocations leave the thresholds. -/
theorem accept_thresholds (m : Membership) {c : PacketCredential}
    (hc : ∀ rev, c ≠ .revocation rev) :
    (m.accept ecc known c).2.revocations = m.revocations ∧
      (m.accept ecc known c).2.comRevocationThreshold = m.comRevocationThreshold := by
  cases c with
  | com com => exact addCom_kept m com
  | revocation rev => exact absurd rfl (hc rev)
  | capability | tag | coo => exact ⟨rfl, rfl⟩

/-- No revocation of another kind among the credentials raises its threshold. -/
def Calm (ecc : Ecc) (known : KnownIdentities) (m : Membership)
    (cs : List PacketCredential) : Prop :=
  ∀ rev, ¬ m.Raises ecc known cs rev

/-- A step that raises no threshold leaves them all, and raises the certificate's as far as it
says. -/
theorem calm_step {m : Membership} {c : PacketCredential} {cs : List PacketCredential}
    (h : m.Calm ecc known (c :: cs)) :
    (∀ key, ((m.accept ecc known c).2.revocations.get key).getD 0
        = (m.revocations.get key).getD 0) ∧
      ∀ x : ℤ, (m.accept ecc known c).2.comRevocationThreshold.toInt ≤ x ↔
        m.comRevocationThreshold.toInt ≤ x ∧
          ∀ rev, RevokesCom ecc known [c] rev → rev.threshold.toInt ≤ x := by
  by_cases hc : ∃ rev, c = .revocation rev
  · obtain ⟨rev, rfl⟩ := hc
    show (∀ key, ((m.addRevocation ecc known rev).2.revocations.get key).getD 0 = _) ∧
      ∀ x, (m.addRevocation ecc known rev).2.comRevocationThreshold.toInt ≤ x ↔ _
    have honly : ∀ rev', RevokesCom ecc known [.revocation rev] rev' → rev' = rev := by
      intro rev' h'
      exact PacketCredential.revocation.inj (List.mem_singleton.mp h'.1)
    rcases m.addRevocation_cases ecc known rev with
      ⟨hok, hcom, heq⟩ | ⟨hok, hkept, hlt, -⟩ | ⟨-, hkept, -, heq⟩ | ⟨hnot, heq⟩
    · rw [heq]
      refine ⟨fun _ => rfl, fun x => ?_⟩
      have hrevokes : RevokesCom ecc known [.revocation rev] rev :=
        ⟨List.mem_cons_self, hok, hcom⟩
      dsimp only
      -- of the certificate of membership
      split_ifs with hlt
      · rw [Int64.lt_iff_toInt_lt] at hlt
        refine ⟨fun hx => ⟨by omega, fun rev' h' => ?_⟩, fun hx => hx.2 rev hrevokes⟩
        rw [honly rev' h']
        exact hx
      · rw [Int64.lt_iff_toInt_lt] at hlt
        refine ⟨fun hx => ⟨hx, fun rev' h' => ?_⟩, fun hx => hx.1⟩
        rw [honly rev' h']
        omega
    · -- a threshold that is raised: the step is calm, and raises none
      exact absurd ⟨List.mem_cons_self, hok, hkept, hlt⟩ (h rev)
    · rw [heq]
      refine ⟨fun key => ?_, fun x => ⟨fun hx => ⟨hx, fun rev' h' => ?_⟩, fun hx => hx.1⟩⟩
      · -- one that is noted and not raised
        dsimp only
        rw [Hashtable.get_set]
        split_ifs with hkey
        · rw [hkey]
          rfl
        · rfl
      · rw [honly rev' h'] at h'
        exact absurd h'.2.2 (not_com_of_keptById hkept)
    · rw [heq]
      refine ⟨fun _ => rfl, fun x => ⟨fun hx => ⟨hx, fun rev' h' => ?_⟩, fun hx => hx.1⟩⟩
      rw [honly rev' h'] at h'
      exact absurd ⟨h'.2.1, Or.inl h'.2.2⟩ hnot
  · have hkept := m.accept_thresholds ecc known fun rev h => hc ⟨rev, h⟩
    rw [hkept.1, hkept.2]
    refine ⟨fun _ => rfl, fun x => ⟨fun hx => ⟨hx, fun rev h' => ?_⟩, fun hx => hx.1⟩⟩
    exact absurd ⟨rev, (List.mem_singleton.mp h'.1).symm⟩ hc

/-- What is raised depends on the thresholds by credential only. -/
theorem Raises.congr {m m' : Membership} {cs : List PacketCredential} {rev : Revocation}
    (hfloor : ∀ key, (m'.revocations.get key).getD 0 = (m.revocations.get key).getD 0)
    (h : m.Raises ecc known cs rev) : m'.Raises ecc known cs rev :=
  ⟨h.1, h.2.1, h.2.2.1, by rw [hfloor]; exact h.2.2.2⟩

theorem Calm.tail {m : Membership} {c : PacketCredential} {cs : List PacketCredential}
    (h : m.Calm ecc known (c :: cs)) : (m.accept ecc known c).2.Calm ecc known cs := by
  intro rev hrev
  have hback := hrev.congr fun key => ((calm_step h).1 key).symm
  exact h rev ⟨List.mem_cons_of_mem c hback.1, hback.2⟩

/-- **The threshold of the certificate** after credentials that raise no other. -/
theorem calm_acceptAll {m : Membership} {cs : List PacketCredential} (h : m.Calm ecc known cs)
    (x : ℤ) :
    (m.acceptAll ecc known cs).comRevocationThreshold.toInt ≤ x ↔
      m.comRevocationThreshold.toInt ≤ x ∧
        ∀ rev, RevokesCom ecc known cs rev → rev.threshold.toInt ≤ x := by
  induction cs generalizing m with
  | nil => exact ⟨fun hx => ⟨hx, fun rev hrev => absurd hrev.1 List.not_mem_nil⟩, fun hx => hx.1⟩
  | cons c cs ih =>
      rw [acceptAll_cons, ih h.tail, (calm_step h).2, and_assoc, ← forall_and]
      refine and_congr_right fun _ => forall_congr' fun rev => ?_
      constructor
      · rintro ⟨hfirst, hrest⟩ ⟨hmem, hrev⟩
        rcases List.mem_cons.mp hmem with rfl | hmem
        · exact hfirst ⟨List.mem_cons_self, hrev⟩
        · exact hrest ⟨hmem, hrev⟩
      · intro hall
        refine ⟨fun hrev => hall ⟨?_, hrev.2⟩, fun hrev =>
          hall ⟨List.mem_cons_of_mem c hrev.1, hrev.2⟩⟩
        rw [List.mem_singleton.mp hrev.1]
        exact List.mem_cons_self

/-- The thresholds of the revocations among the credentials are reached already. -/
def Absorbed (ecc : Ecc) (known : KnownIdentities) (m : Membership) (cs : List PacketCredential) :
    Prop :=
  ∀ rev, .revocation rev ∈ cs → rev.verify ecc known = .ok → keptById rev.type = true →
    RevokedUpTo m.revocations rev.type rev.credentialId rev.threshold

theorem Absorbed.calm {m : Membership} {cs : List PacketCredential} (h : m.Absorbed ecc known cs) :
    m.Calm ecc known cs := by
  rintro rev ⟨hmem, hok, hkept, hlt⟩
  obtain ⟨rt, hrt, hle⟩ := h rev hmem hok hkept
  rw [hrt] at hlt
  exact Int64.not_lt.mpr hle hlt

/-- Revocations that are reached already do nothing to the thresholds by credential. -/
theorem Absorbed.step {m : Membership} {c : PacketCredential} {cs : List PacketCredential}
    (h : m.Absorbed ecc known (c :: cs)) (key : UInt64) :
    (m.accept ecc known c).2.revocations.get key = m.revocations.get key := by
  by_cases hc : ∃ rev, c = .revocation rev
  · obtain ⟨rev, rfl⟩ := hc
    show (m.addRevocation ecc known rev).2.revocations.get key = _
    rcases m.addRevocation_cases ecc known rev with
      ⟨-, -, heq⟩ | ⟨hok, hkept, hlt, -⟩ | ⟨hok, hkept, -, heq⟩ | ⟨-, heq⟩
    · rw [heq]
    · exact absurd ⟨List.mem_cons_self, hok, hkept, hlt⟩ (h.calm rev)
    · obtain ⟨rt, hrt, -⟩ := h rev List.mem_cons_self hok hkept
      rw [heq]
      dsimp only
      rw [Hashtable.get_set, hrt]
      split_ifs with hkey
      · rw [hkey, hrt]
        rfl
      · rfl
    · rw [heq]
  · rw [(m.accept_thresholds ecc known fun rev h => hc ⟨rev, h⟩).1]

theorem Absorbed.tail {m : Membership} {c : PacketCredential} {cs : List PacketCredential}
    (h : m.Absorbed ecc known (c :: cs)) : (m.accept ecc known c).2.Absorbed ecc known cs := by
  intro rev hmem hok hkept
  obtain ⟨rt, hrt, hle⟩ := h rev (List.mem_cons_of_mem c hmem) hok hkept
  exact ⟨rt, (h.step _).trans hrt, hle⟩

theorem Absorbed.lookups {m : Membership} {cs : List PacketCredential}
    (h : m.Absorbed ecc known cs) (key : UInt64) :
    (m.acceptAll ecc known cs).revocations.get key = m.revocations.get key := by
  induction cs generalizing m with
  | nil => rfl
  | cons c cs ih => exact (ih h.tail).trans (h.step key)

/-- No credential lowers a threshold by credential. -/
theorem accept_revokedUpTo {m : Membership} {c : PacketCredential} {t : CredentialType}
    {id : UInt32}
    {threshold : Int64} (h : RevokedUpTo m.revocations t id threshold) :
    RevokedUpTo (m.accept ecc known c).2.revocations t id threshold := by
  by_cases hc : ∃ rev, c = .revocation rev
  · obtain ⟨rev, rfl⟩ := hc
    exact revoked_mono h
  · rw [(m.accept_thresholds ecc known fun rev h => hc ⟨rev, h⟩).1]
    exact h

variable (ecc known) in
/-- **After an attempt** the thresholds of its revocations are reached. -/
theorem absorbed_acceptAll (m : Membership) (cs : List PacketCredential) :
    (m.acceptAll ecc known cs).Absorbed ecc known cs := by
  induction cs using List.reverseRecOn with
  | nil => exact fun rev hrev => absurd hrev List.not_mem_nil
  | append_singleton cs c ih =>
      rw [acceptAll_append]
      show ((m.acceptAll ecc known cs).accept ecc known c).2.Absorbed ecc known (cs ++ [c])
      intro rev hmem hok hkept
      rcases List.mem_append.mp hmem with hmem | hmem
      · exact accept_revokedUpTo (ih rev hmem hok hkept)
      · obtain rfl := List.mem_singleton.mp hmem
        show RevokedUpTo
          ((m.acceptAll ecc known cs).addRevocation ecc known rev).2.revocations _ _ _
        rcases (m.acceptAll ecc known cs).addRevocation_cases ecc known rev with
          ⟨-, hcom, -⟩ | ⟨-, -, -, heq⟩ | ⟨-, -, hle, heq⟩ | ⟨hnot, -⟩
        · exact absurd hcom (not_com_of_keptById hkept)
        · rw [heq]
          exact ⟨_, by rw [Hashtable.get_set, if_pos rfl], Int64.le_refl _⟩
        · rw [heq]
          exact ⟨_, by rw [Hashtable.get_set, if_pos rfl], Int64.not_lt.mp hle⟩
        · exact absurd ⟨hok, Or.inr hkept⟩ hnot

/-! ### What is kept by id -/

/-- One of the tables of credentials, with the credentials of a packet that go into it. -/
structure IsSlot (ecc : Ecc) (known : KnownIdentities) {C : Type} [Credential C] [DecidableEq C]
    (slot : Membership → Hashtable UInt32 C) (pick : PacketCredential → Option C) : Prop where
  picked : ∀ m c cred, pick c = some cred →
    slot (m.accept ecc known c).2 = (addCredImpl ecc known (slot m) m.revocations cred).2 ∧
      (m.accept ecc known c).2.revocations = m.revocations
  passed : ∀ m c, pick c = none → slot (m.accept ecc known c).2 = slot m

/-- The tags of a packet. -/
def pickTag : PacketCredential → Option Tag
  | .tag tag => some tag
  | _ => none

/-- The capabilities of a packet. -/
def pickCapability : PacketCredential → Option Capability
  | .capability cap => some cap
  | _ => none

/-- The certificates of ownership of a packet. -/
def pickCoo : PacketCredential → Option CertificateOfOwnership
  | .coo coo => some coo
  | _ => none

/-- A certificate of membership leaves everything else. -/
theorem addCom_others (m : Membership) (com : CertificateOfMembership) :
    (m.addCom ecc known com).2 = { m with com := (m.addCom ecc known com).2.com } := by
  rcases m.addCom_spec ecc known com with h | ⟨-, -, h⟩
  · rw [h]
  · rw [h]

/-- A revocation leaves everything but the thresholds. -/
theorem addRevocation_others (m : Membership) (rev : Revocation) :
    (m.addRevocation ecc known rev).2 = { m with
      comRevocationThreshold := (m.addRevocation ecc known rev).2.comRevocationThreshold
      revocations := (m.addRevocation ecc known rev).2.revocations } := by
  rcases m.addRevocation_cases ecc known rev with
    ⟨-, -, heq⟩ | ⟨-, -, -, heq⟩ | ⟨-, -, -, heq⟩ | ⟨-, heq⟩
  all_goals rw [heq]

theorem tagSlot : IsSlot ecc known remoteTags pickTag where
  picked := by
    intro m c cred h
    cases c with
    | tag tag =>
        cases h
        exact ⟨rfl, rfl⟩
    | com | capability | revocation | coo => cases h
  passed := by
    intro m c h
    cases c with
    | tag tag => cases h
    | com com => exact (congrArg remoteTags (m.addCom_others com)).trans rfl
    | revocation rev => exact (congrArg remoteTags (m.addRevocation_others rev)).trans rfl
    | capability | coo => rfl

theorem capabilitySlot : IsSlot ecc known remoteCaps pickCapability where
  picked := by
    intro m c cred h
    cases c with
    | capability cap =>
        cases h
        exact ⟨rfl, rfl⟩
    | com | tag | revocation | coo => cases h
  passed := by
    intro m c h
    cases c with
    | capability cap => cases h
    | com com => exact (congrArg remoteCaps (m.addCom_others com)).trans rfl
    | revocation rev => exact (congrArg remoteCaps (m.addRevocation_others rev)).trans rfl
    | tag | coo => rfl

theorem cooSlot : IsSlot ecc known remoteCoos pickCoo where
  picked := by
    intro m c cred h
    cases c with
    | coo coo =>
        cases h
        exact ⟨rfl, rfl⟩
    | com | tag | revocation | capability => cases h
  passed := by
    intro m c h
    cases c with
    | coo coo => cases h
    | com com => exact (congrArg remoteCoos (m.addCom_others com)).trans rfl
    | revocation rev => exact (congrArg remoteCoos (m.addRevocation_others rev)).trans rfl
    | tag | capability => rfl

section Slot

variable {C : Type} [Credential C] [DecidableEq C] {slot : Membership → Hashtable UInt32 C}
  {pick : PacketCredential → Option C}

/-- The credentials that the register of an id is shown. -/
def shown (pick : PacketCredential → Option C) (id : UInt32) (cs : List PacketCredential) :
    List C :=
  (cs.filterMap pick).filter fun cred => Credential.id cred == id

omit [DecidableEq C] in
theorem shown_append (id : UInt32) (cs ds : List PacketCredential) :
    shown pick id (cs ++ ds) = shown pick id cs ++ shown pick id ds := by
  unfold shown
  rw [List.filterMap_append, List.filter_append]

/-- What a register does with one credential of the packet. -/
theorem IsSlot.get_accept (hslot : IsSlot ecc known slot pick) (m : Membership)
    (c : PacketCredential) (id : UInt32) :
    (slot (m.accept ecc known c).2).get id =
      (shown pick id [c]).foldl (keep (fun cred => (Credential.timestamp cred).toInt)
        (admitsCred ecc known m.revocations)) ((slot m).get id) := by
  unfold shown
  rcases hpick : pick c with - | cred
  · rw [hslot.passed m c hpick, List.filterMap_cons_none hpick]
    rfl
  · rw [(hslot.picked m c cred hpick).1, get_addCredImpl, List.filterMap_cons_some hpick]
    by_cases hid : id = Credential.id cred
    · rw [if_pos hid, List.filter_cons, if_pos (beq_iff_eq.mpr hid.symm)]
      rfl
    · rw [if_neg hid, List.filter_cons, if_neg fun h => hid (beq_iff_eq.mp h).symm]
      rfl

omit [DecidableEq C] in
/-- Admission depends on what the thresholds say. -/
theorem admitsCred_congr {r r' : Hashtable UInt64 Int64} (h : ∀ key, r.get key = r'.get key) :
    (admitsCred ecc known r : C → Bool) = admitsCred ecc known r' := by
  funext cred
  unfold admitsCred isRevoked
  rw [h]

/-- **After an attempt** every register holds the newest of what it was shown. -/
theorem IsSlot.newest_kept (hslot : IsSlot ecc known slot pick) (m : Membership)
    (cs : List PacketCredential) (id : UInt32) :
    Newest (fun cred => (Credential.timestamp cred).toInt)
      (admitsCred ecc known (m.acceptAll ecc known cs).revocations) (shown pick id cs)
      ((slot (m.acceptAll ecc known cs)).get id) := by
  -- on the credentials of the attempt, the last one added to what came out of the others
  induction cs using List.reverseRecOn with
  | nil => exact newest_nil _ _ _
  | append_singleton cs c ih =>
      rw [acceptAll_append]
      show Newest _
        (admitsCred ecc known ((m.acceptAll ecc known cs).accept ecc known c).2.revocations)
        (shown pick id (cs ++ [c]))
        ((slot ((m.acceptAll ecc known cs).accept ecc known c).2).get id)
      rcases hpick : pick c with - | cred
      · -- the register stays, and fewer credentials are admitted
        have hshown : shown pick id (cs ++ [c]) = shown pick id cs := by
          unfold shown
          rw [List.filterMap_append, List.filterMap_cons_none hpick, List.filterMap_nil,
            List.append_nil]
        rw [hshown, hslot.passed _ c hpick]
        refine ih.restrict (fun cred _ hadm => ?_) fun cred hcred cred' hcred' hts hadm hadm' => ?_
        · obtain ⟨hrev, hok⟩ := Bool.and_eq_true_iff.mp hadm
          refine Bool.and_eq_true_iff.mpr ⟨?_, hok⟩
          -- what was revoked before is revoked still
          by_contra hwas
          have hwas' : isRevoked (m.acceptAll ecc known cs).revocations cred = true := by
            simpa using hwas
          obtain ⟨rt, hrt, hle⟩ : RevokedUpTo (m.acceptAll ecc known cs).revocations
              (Credential.credentialType C) (Credential.id cred) (Credential.timestamp cred) := by
            unfold isRevoked at hwas'
            rw [Option.any_eq_true] at hwas'
            obtain ⟨rt, hrt, hle⟩ := hwas'
            exact ⟨rt, hrt, of_decide_eq_true hle⟩
          have hrevoked : RevokedUpTo ((m.acceptAll ecc known cs).accept ecc known c).2.revocations
              (Credential.credentialType C) (Credential.id cred) (Credential.timestamp cred) :=
            accept_revokedUpTo ⟨rt, hrt, hle⟩
          have hnow := isRevoked_of_revokedUpTo hrevoked (Int64.le_refl _)
          rw [hnow] at hrev
          cases hrev
        · have hid := beq_iff_eq.mp (List.mem_filter.mp hcred).2
          have hid' := beq_iff_eq.mp (List.mem_filter.mp hcred').2
          refine Bool.and_eq_true_iff.mpr ⟨?_, (Bool.and_eq_true_iff.mp hadm').2⟩
          have hrev := (Bool.and_eq_true_iff.mp hadm).1
          unfold isRevoked at hrev ⊢
          rw [hid'.trans hid.symm, ← Int64.toInt_inj.mp hts]
          exact hrev
      · -- the register is shown one more, if it is for this id
        rw [hslot.get_accept, (hslot.picked _ c cred hpick).2, shown_append]
        unfold shown
        rw [List.filterMap_cons_some hpick, List.filterMap_nil]
        by_cases hid : (Credential.id cred == id) = true
        · rw [List.filter_cons, if_pos hid]
          exact newest_concat ih cred
        · rw [List.filter_cons, if_neg hid, List.filter_nil, List.append_nil]
          exact ih

/-- **Added again**, what is kept by id stays as it is. -/
theorem IsSlot.get_acceptAll (hslot : IsSlot ecc known slot pick) {m : Membership}
    {cs : List PacketCredential} (h : m.Absorbed ecc known cs) (id : UInt32) :
    (slot (m.acceptAll ecc known cs)).get id =
      (shown pick id cs).foldl (keep (fun cred => (Credential.timestamp cred).toInt)
        (admitsCred ecc known m.revocations)) ((slot m).get id) := by
  induction cs generalizing m with
  | nil => rfl
  | cons c cs ih =>
      rw [acceptAll_cons, ih h.tail, hslot.get_accept, admitsCred_congr h.step, ← List.foldl_append,
        ← shown_append]
      rfl

theorem IsSlot.get_again (hslot : IsSlot ecc known slot pick) (m : Membership)
    (cs : List PacketCredential) (id : UInt32) :
    (slot ((m.acceptAll ecc known cs).acceptAll ecc known cs)).get id
      = (slot (m.acceptAll ecc known cs)).get id := by
  rw [hslot.get_acceptAll (absorbed_acceptAll ecc known m cs)]
  exact foldl_keep_eq_iff.mpr (hslot.newest_kept m cs id)

end Slot

/-! ### The certificate of membership -/

/-- The certificates of membership come first. -/
def ComsFirst (cs : List PacketCredential) : Prop :=
  cs.Pairwise fun c d => (∃ com, d = .com com) → ∃ com, c = .com com

theorem coms_append (cs ds : List PacketCredential) : coms (cs ++ ds) = coms cs ++ coms ds :=
  List.filterMap_append

theorem mem_coms {cs : List PacketCredential} {com : CertificateOfMembership} :
    com ∈ coms cs ↔ .com com ∈ cs := by
  unfold coms
  rw [List.mem_filterMap]
  constructor
  · rintro ⟨c, hc, heq⟩
    cases c with
    | com d =>
        cases heq
        exact hc
    | capability | tag | revocation | coo => cases heq
  · intro h
    exact ⟨_, h, rfl⟩

variable (ecc known) in
/-- The register of the certificate with one credential of the packet. -/
theorem com_accept (m : Membership) (c : PacketCredential) :
    some (m.accept ecc known c).2.com =
      (coms [c]).foldl (keep (fun com => com.timestamp.toInt) (m.admitsCom ecc known))
        (some m.com) := by
  cases c with
  | com com => exact m.com_addCom com
  | revocation rev =>
      refine congrArg some ?_
      exact (congrArg Membership.com (m.addRevocation_others rev)).trans rfl
  | capability cap => exact congrArg some (show (m.addCapability ecc known cap).2.com = m.com from rfl)
  | tag tag => exact congrArg some (show (m.addTag ecc known tag).2.com = m.com from rfl)
  | coo coo => exact congrArg some (show (m.addCoo ecc known coo).2.com = m.com from rfl)

/-- Admission depends on the threshold. -/
theorem admitsCom_congr {m m' : Membership}
    (h : m.comRevocationThreshold = m'.comRevocationThreshold) :
    m.admitsCom ecc known = m'.admitsCom ecc known := by
  funext com
  unfold admitsCom
  rw [h]

variable (ecc known) in
theorem com_acceptAll (m : Membership) {cs : List PacketCredential} (h : ComsFirst cs) :
    some (m.acceptAll ecc known cs).com =
      (coms cs).foldl (keep (fun com => com.timestamp.toInt) (m.admitsCom ecc known))
        (some m.com) := by
  induction cs generalizing m with
  | nil => rfl
  | cons c cs ih =>
      obtain ⟨hc, hcs⟩ := List.pairwise_cons.mp h
      have hsplit : coms (c :: cs) = coms [c] ++ coms cs := coms_append [c] cs
      rw [acceptAll_cons, ih _ hcs, hsplit, List.foldl_append, com_accept]
      rcases hcoms : coms cs with - | ⟨com, rest⟩
      · rw [List.foldl_nil, List.foldl_nil]
      · -- another certificate follows, so this is one too
        obtain ⟨com', rfl⟩ := hc (.com com)
          (mem_coms.mp (by rw [hcoms]; exact List.mem_cons_self)) ⟨com, rfl⟩
        rw [admitsCom_congr (m.accept_thresholds ecc known
          fun rev h => (by cases h)).2]

variable (ecc known) in
/-- Credentials without revocations leave the threshold. -/
theorem threshold_acceptAll (m : Membership) {cs : List PacketCredential}
    (h : ∀ rev, .revocation rev ∉ cs) :
    (m.acceptAll ecc known cs).comRevocationThreshold = m.comRevocationThreshold := by
  induction cs generalizing m with
  | nil => rfl
  | cons c cs ih =>
      rw [acceptAll_cons, ih _ fun rev hrev => h rev (List.mem_cons_of_mem c hrev)]
      refine (m.accept_thresholds ecc known fun rev hc => h rev ?_).2
      rw [hc]
      exact List.mem_cons_self

/-! ### Memberships that keep the same -/

/-- What a revocation makes of a threshold by credential. -/
theorem get_addRevocation (m : Membership) (rev : Revocation) (key : UInt64) :
    (m.addRevocation ecc known rev).2.revocations.get key =
      if rev.verify ecc known = .ok ∧ keptById rev.type = true
          ∧ key = credentialKey rev.type rev.credentialId then
        some (if (m.revocations.get key).getD 0 < rev.threshold then rev.threshold
          else (m.revocations.get key).getD 0)
      else m.revocations.get key := by
  rcases m.addRevocation_cases ecc known rev with
    ⟨-, hcom, heq⟩ | ⟨hok, hkept, hlt, heq⟩ | ⟨hok, hkept, hlt, heq⟩ | ⟨hnot, heq⟩
  · have hnot : ¬ (rev.verify ecc known = .ok ∧ keptById rev.type = true
        ∧ key = credentialKey rev.type rev.credentialId) := fun h => not_com_of_keptById h.2.1 hcom
    rw [heq, if_neg hnot]
  · rw [heq]
    dsimp only
    rw [Hashtable.get_set]
    by_cases hkey : key = credentialKey rev.type rev.credentialId
    · rw [if_pos hkey, if_pos ⟨hok, hkept, hkey⟩, hkey, if_pos hlt]
    · rw [if_neg hkey, if_neg fun h => hkey h.2.2]
  · rw [heq]
    dsimp only
    rw [Hashtable.get_set]
    by_cases hkey : key = credentialKey rev.type rev.credentialId
    · rw [if_pos hkey, if_pos ⟨hok, hkept, hkey⟩, hkey, if_neg hlt]
    · rw [if_neg hkey, if_neg fun h => hkey h.2.2]
  · rw [heq, if_neg fun h => hnot ⟨h.1, Or.inr h.2.1⟩]

/-- What a revocation makes of the threshold of the certificate. -/
theorem threshold_addRevocation (m : Membership) (rev : Revocation) :
    (m.addRevocation ecc known rev).2.comRevocationThreshold =
      if rev.verify ecc known = .ok ∧ rev.type = CredentialType.com then
        if m.comRevocationThreshold < rev.threshold then rev.threshold
          else m.comRevocationThreshold
      else if rev.verify ecc known = .ok ∧ keptById rev.type = true ∧
          (m.revocations.get (credentialKey rev.type rev.credentialId)).getD 0 < rev.threshold then
        rev.threshold
      else m.comRevocationThreshold := by
  rcases m.addRevocation_cases ecc known rev with
    ⟨hok, hcom, heq⟩ | ⟨hok, hkept, hlt, heq⟩ | ⟨hok, hkept, hlt, heq⟩ | ⟨hnot, heq⟩
  · have hrevokes : rev.verify ecc known = .ok ∧ rev.type = CredentialType.com := ⟨hok, hcom⟩
    rw [heq, if_pos hrevokes]
  · rw [heq, if_neg fun h => not_com_of_keptById hkept h.2, if_pos ⟨hok, hkept, hlt⟩]
  · rw [heq, if_neg fun h => not_com_of_keptById hkept h.2, if_neg fun h => hlt h.2.2]
  · rw [heq, if_neg fun h => hnot ⟨h.1, Or.inl h.2⟩, if_neg fun h => hnot ⟨h.1, Or.inr h.2.1⟩]

theorem lastUpdatedMulticast_accept (m : Membership) (c : PacketCredential) :
    (m.accept ecc known c).2.lastUpdatedMulticast = m.lastUpdatedMulticast := by
  cases c with
  | com com => exact (congrArg lastUpdatedMulticast (m.addCom_others com)).trans rfl
  | revocation rev => exact (congrArg lastUpdatedMulticast (m.addRevocation_others rev)).trans rfl
  | capability | tag | coo => rfl

/-- The same credential is kept in the same way. -/
theorem SameKept.accept {m m' : Membership} (h : m.SameKept m') (c : PacketCredential) :
    (m.accept ecc known c).2.SameKept (m'.accept ecc known c).2 where
  lastUpdatedMulticast := by
    rw [lastUpdatedMulticast_accept, lastUpdatedMulticast_accept, h.lastUpdatedMulticast]
  revocations := by
    intro key
    by_cases hc : ∃ rev, c = .revocation rev
    · obtain ⟨rev, rfl⟩ := hc
      show (m.addRevocation ecc known rev).2.revocations.get key
        = (m'.addRevocation ecc known rev).2.revocations.get key
      rw [get_addRevocation, get_addRevocation, h.revocations]
    · rw [(m.accept_thresholds ecc known fun rev h => hc ⟨rev, h⟩).1,
        (m'.accept_thresholds ecc known fun rev h => hc ⟨rev, h⟩).1, h.revocations]
  remoteTags := by
    intro id
    rw [tagSlot.get_accept, tagSlot.get_accept, admitsCred_congr h.revocations, h.remoteTags]
  remoteCaps := by
    intro id
    rw [capabilitySlot.get_accept, capabilitySlot.get_accept, admitsCred_congr h.revocations,
      h.remoteCaps]
  remoteCoos := by
    intro id
    rw [cooSlot.get_accept, cooSlot.get_accept, admitsCred_congr h.revocations, h.remoteCoos]

theorem SameKept.acceptAll {m m' : Membership} (h : m.SameKept m') (cs : List PacketCredential) :
    (m.acceptAll ecc known cs).SameKept (m'.acceptAll ecc known cs) := by
  induction cs generalizing m m' with
  | nil => exact h
  | cons c cs ih => exact ih (h.accept c)

theorem SameKept.threshold {m m' : Membership} (h : m.SameKept m')
    (hthreshold : m.comRevocationThreshold = m'.comRevocationThreshold) (c : PacketCredential) :
    (m.accept ecc known c).2.comRevocationThreshold
      = (m'.accept ecc known c).2.comRevocationThreshold := by
  by_cases hc : ∃ rev, c = .revocation rev
  · obtain ⟨rev, rfl⟩ := hc
    show (m.addRevocation ecc known rev).2.comRevocationThreshold
      = (m'.addRevocation ecc known rev).2.comRevocationThreshold
    rw [threshold_addRevocation, threshold_addRevocation, h.revocations, hthreshold]
  · rw [(m.accept_thresholds ecc known fun rev h => hc ⟨rev, h⟩).2,
      (m'.accept_thresholds ecc known fun rev h => hc ⟨rev, h⟩).2, hthreshold]

theorem Same.acceptAll {m m' : Membership} (h : m.Same m') (cs : List PacketCredential) :
    (m.acceptAll ecc known cs).Same (m'.acceptAll ecc known cs) := by
  induction cs generalizing m m' with
  | nil => exact h
  | cons c cs ih =>
      refine ih ⟨h.toSameKept.accept c, h.threshold h.comRevocationThreshold c, ?_⟩
      have hcom := m.com_accept ecc known c
      rw [admitsCom_congr h.comRevocationThreshold, h.com, ← com_accept] at hcom
      exact Option.some.inj hcom

/-- Thresholds that are the same stay so. -/
theorem SameKept.threshold_acceptAll {m m' : Membership} (h : m.SameKept m')
    (hthreshold : m.comRevocationThreshold = m'.comRevocationThreshold)
    (cs : List PacketCredential) :
    (m.acceptAll ecc known cs).comRevocationThreshold
      = (m'.acceptAll ecc known cs).comRevocationThreshold := by
  induction cs generalizing m m' with
  | nil => exact hthreshold
  | cons c cs ih => exact ih (h.accept c) (h.threshold hthreshold c)

/-- **A revocation of another kind** that raises its threshold makes the certificate's the same,
whatever it was. -/
theorem SameKept.threshold_of_raises {m m' : Membership} (h : m.SameKept m')
    {cs : List PacketCredential} {rev : Revocation} (hrev : m.Raises ecc known cs rev) :
    (m.acceptAll ecc known cs).comRevocationThreshold
      = (m'.acceptAll ecc known cs).comRevocationThreshold := by
  -- on the credentials: up to the revocation both memberships stay alike
  induction cs generalizing m m' with
  | nil => exact absurd hrev.1 List.not_mem_nil
  | cons c cs ih =>
      by_cases hnow : ∃ rev', m.Raises ecc known [c] rev'
      · obtain ⟨rev', hmem, hok, hkept, hlt⟩ := hnow
        obtain rfl := List.mem_singleton.mp hmem
        refine SameKept.threshold_acceptAll (h.accept _) ?_ cs
        show (m.addRevocation ecc known rev').2.comRevocationThreshold
          = (m'.addRevocation ecc known rev').2.comRevocationThreshold
        have hcom : ¬ (rev'.verify ecc known = .ok ∧ rev'.type = CredentialType.com) :=
          fun h => not_com_of_keptById hkept h.2
        rw [threshold_addRevocation, threshold_addRevocation, if_neg hcom, if_neg hcom,
          if_pos ⟨hok, hkept, hlt⟩, if_pos ⟨hok, hkept, by rw [← h.revocations]; exact hlt⟩]
      · refine ih (h.accept c) ?_
        have hcalm : m.Calm ecc known [c] := fun rev' hrev' => hnow ⟨rev', hrev'⟩
        refine Raises.congr (calm_step hcalm).1 ⟨?_, hrev.2⟩
        rcases List.mem_cons.mp hrev.1 with rfl | hmem
        · exact absurd ⟨List.mem_cons_self, hrev.2⟩ (hcalm rev)
        · exact hmem

/-! ### Once more -/

theorem lastUpdatedMulticast_acceptAll (m : Membership) (cs : List PacketCredential) :
    (m.acceptAll ecc known cs).lastUpdatedMulticast = m.lastUpdatedMulticast := by
  induction cs generalizing m with
  | nil => rfl
  | cons c cs ih => exact (ih _).trans (m.lastUpdatedMulticast_accept c)

variable (ecc known) in
/-- Adding credentials again leaves what is kept by id. -/
theorem sameKept_again (m : Membership) (cs : List PacketCredential) :
    ((m.acceptAll ecc known cs).acceptAll ecc known cs).SameKept (m.acceptAll ecc known cs) where
  lastUpdatedMulticast := lastUpdatedMulticast_acceptAll _ cs
  revocations := (absorbed_acceptAll ecc known m cs).lookups
  remoteTags := tagSlot.get_again m cs
  remoteCaps := capabilitySlot.get_again m cs
  remoteCoos := cooSlot.get_again m cs

variable (ecc known) in
/-- The certificate after adding them again is the one before exactly when it is the newest. -/
theorem com_again_iff (m : Membership) {cs : List PacketCredential} (h : ComsFirst cs) :
    (m.acceptAll ecc known cs).com = m.com ↔
      Newest (fun com => com.timestamp.toInt) (m.admitsCom ecc known) (coms cs) (some m.com) := by
  rw [← foldl_keep_eq_iff, ← com_acceptAll ecc known m h, Option.some.injEq]

section Again

variable {m m' : Membership}

/-- **Thresholds that come out the same**: some revocation replaces them, or what the one has more
than the other is brought by what is left. -/
theorem threshold_acceptAll_eq_iff (h : m'.SameKept m) {before : List PacketCredential}
    (left : List PacketCredential)
    (hm' : ∀ x : ℤ, m'.comRevocationThreshold.toInt ≤ x ↔ m.comRevocationThreshold.toInt ≤ x ∧
      ∀ rev, RevokesCom ecc known before rev → rev.threshold.toInt ≤ x) :
    (m'.acceptAll ecc known left).comRevocationThreshold
        = (m.acceptAll ecc known left).comRevocationThreshold ↔
      (∃ rev, m.Raises ecc known left rev) ∨
        ∀ rev, RevokesCom ecc known before rev → rev.threshold ≤ m.comRevocationThreshold ∨
          ∃ rev', RevokesCom ecc known left rev' ∧ rev.threshold ≤ rev'.threshold := by
  by_cases hraises : ∃ rev, m.Raises ecc known left rev
  · obtain ⟨rev, hrev⟩ := hraises
    refine iff_of_true (h.threshold_of_raises (hrev.congr fun key => ?_)) (Or.inl ⟨rev, hrev⟩)
    rw [h.revocations]
  · have hcalm : m.Calm ecc known left := fun rev hrev => hraises ⟨rev, hrev⟩
    have hcalm' : m'.Calm ecc known left := fun rev hrev =>
      hraises ⟨rev, hrev.congr fun key => by rw [h.revocations]⟩
    rw [or_iff_right hraises]
    constructor
    · intro heq rev hrev
      by_contra hnot
      obtain ⟨habove, hnone⟩ := not_or.mp hnot
      have hlt := Int64.lt_iff_toInt_lt.mp (Int64.not_le.mp habove)
      have hle := (calm_acceptAll hcalm (rev.threshold.toInt - 1)).mpr
        ⟨by omega, fun rev' hrev' => by
          have := Int64.lt_iff_toInt_lt.mp (Int64.not_le.mp fun hle => hnone ⟨rev', hrev', hle⟩)
          omega⟩
      rw [← heq] at hle
      have := ((hm' _).mp ((calm_acceptAll hcalm' _).mp hle).1).2 rev hrev
      omega
    · intro hbrought
      have hsame : ∀ x : ℤ, (m'.acceptAll ecc known left).comRevocationThreshold.toInt ≤ x ↔
          (m.acceptAll ecc known left).comRevocationThreshold.toInt ≤ x := by
        intro x
        rw [calm_acceptAll hcalm', calm_acceptAll hcalm, hm', and_right_comm]
        refine and_iff_left_of_imp ?_
        rintro ⟨hx, hleft⟩ rev hrev
        rcases hbrought rev hrev with hle | ⟨rev', hrev', hle⟩
        · exact (Int64.le_iff_toInt_le.mp hle).trans hx
        · exact (Int64.le_iff_toInt_le.mp hle).trans (hleft rev' hrev')
      exact Int64.toInt_inj.mp
        (le_antisymm ((hsame _).mpr (le_refl _)) ((hsame _).mp (le_refl _)))

end Again

/-- **Adding credentials again** before those that are left makes no difference exactly when the
membership is settled. -/
theorem again_same_iff (m : Membership) {before left : List PacketCredential}
    (hfirst : ComsFirst (before ++ left)) :
    ((m.acceptAll ecc known before).acceptAll ecc known (before ++ left)).Same
        (m.acceptAll ecc known (before ++ left)) ↔
      (m.acceptAll ecc known before).Settled ecc known before left := by
  obtain ⟨hbefore, hleft, hacross⟩ := List.pairwise_append.mp hfirst
  rw [acceptAll_append, acceptAll_append]
  have hkept := sameKept_again ecc known m before
  have hnew := com_again_iff ecc known (m.acceptAll ecc known before) hbefore
  have hcalm := (absorbed_acceptAll ecc known m before).calm
  have hthreshold := threshold_acceptAll_eq_iff hkept left (calm_acceptAll hcalm)
  rcases hcoms : coms left with - | ⟨com, rest⟩
  · -- no certificate is left, so it stays as it is
    have hstays : ∀ m : Membership, (m.acceptAll ecc known left).com = m.com := by
      intro m
      have hcom := com_acceptAll ecc known m hleft
      rw [hcoms] at hcom
      exact Option.some.inj hcom
    constructor
    · intro h
      refine ⟨hnew.mp ?_, hthreshold.mp h.comRevocationThreshold⟩
      rw [← hstays, h.com, hstays]
    · intro h
      refine ⟨hkept.acceptAll left, hthreshold.mpr h.threshold, ?_⟩
      rw [hstays, hstays, hnew.mpr h.com]
  · -- the credentials before are all certificates
    have hnone : ∀ rev, .revocation rev ∉ before := by
      intro rev hrev
      obtain ⟨com', hcom'⟩ := hacross _ hrev (.com com)
        (mem_coms.mp (by rw [hcoms]; exact List.mem_cons_self)) ⟨com, rfl⟩
      cases hcom'
    have hsame := threshold_acceptAll ecc known m hnone
    have hsame' := threshold_acceptAll ecc known
      (m.acceptAll ecc known before) hnone
    have hnewest : Newest (fun com => com.timestamp.toInt)
        ((m.acceptAll ecc known before).admitsCom ecc known) (coms before)
        (some (m.acceptAll ecc known before).com) := by
      rw [admitsCom_congr hsame, com_acceptAll ecc known m hbefore]
      exact newest_foldl _ _ _ _
    refine iff_of_true (Same.acceptAll ⟨hkept, hsame', hnew.mpr hnewest⟩ left) ⟨hnewest, Or.inr ?_⟩
    intro rev hrev
    exact absurd hrev.1 (hnone rev)

end Membership

end ZGalaxy
