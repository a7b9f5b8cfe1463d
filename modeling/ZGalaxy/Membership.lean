/-
ZGalaxy/Membership.lean

What a node keeps about one member of a network.

A membership holds the member's certificate of membership, its tags, capabilities
and certificates of ownership by id, and the thresholds up to which credentials were
revoked.  Adding a credential (`addCom`, `addCredImpl`, `addRevocation`) answers with one
of four results and changes the membership only if the credential is accepted as new.

Thresholds by credential never fall (`revoked_mono`), and no credential at or below
its threshold is stored (`addCredImpl_new`) or counts as valid
(`isCredentialTimestampValid_revoked`).  The threshold of the certificate of
membership is not so well kept: a revocation of another type replaces it.

An IPv6 address counts as owned without any certificate if it begins like the one
that this node was itself assigned by the 6plane or RFC4193 scheme
(`isV6NDPEmulated`).
-/
import ZGalaxy.Credentials
import ZGalaxy.Hashtable

namespace ZGalaxy

open ByteList

instance : HashCode UInt32 := ⟨fun i => i.toNat * 0x9e3779b1⟩

instance : HashCode UInt64 := ⟨fun i => (i ^^^ (i >>> 32)).toNat⟩

instance : HashCode Address := ⟨BitVec.toNat⟩

/-! ### The configuration of a network -/

/-- `NetworkConfig`.  What the modelled functions compare only as part of the whole is `rest`. -/
structure NetworkConfig where
  networkId : NetworkId
  timestamp : Int64
  credentialTimeMaxDelta : Int64
  issuedTo : Address
  flags : UInt64
  staticIps : List InetAddress
  rules : List Rule
  capabilities : List Capability
  tags : List Tag
  certificatesOfOwnership : List CertificateOfOwnership
  type : ℕ
  com : CertificateOfMembership
  rest : Bytes
deriving DecidableEq

namespace NetworkConfig

/-- The configuration of a network that has none yet. -/
def none : NetworkConfig where
  networkId := 0
  timestamp := 0
  credentialTimeMaxDelta := 0
  issuedTo := 0
  flags := 0
  staticIps := []
  rules := []
  capabilities := []
  tags := []
  certificatesOfOwnership := []
  type := 0
  com := CertificateOfMembership.empty
  rest := []

/-- `NetworkConfig::operator bool`. -/
def isSet (nconf : NetworkConfig) : Bool := nconf.networkId != 0

/-- `NetworkConfig::isPublic`: the type is `ZT_NETWORK_TYPE_PUBLIC`. -/
def isPublic (nconf : NetworkConfig) : Bool := nconf.type == 1

/-- `NetworkConfig::ndpEmulation`. -/
def ndpEmulation (nconf : NetworkConfig) : Bool := nconf.flags &&& 4 != 0

end NetworkConfig

/-! ### The membership -/

/-- `Membership`. -/
structure Membership where
  lastUpdatedMulticast : Int64
  comRevocationThreshold : Int64
  com : CertificateOfMembership
  revocations : Hashtable UInt64 Int64
  remoteTags : Hashtable UInt32 Tag
  remoteCaps : Hashtable UInt32 Capability
  remoteCoos : Hashtable UInt32 CertificateOfOwnership

namespace Membership

/-- `Membership::Membership`. -/
def new : Membership where
  lastUpdatedMulticast := 0
  comRevocationThreshold := 0
  com := CertificateOfMembership.empty
  revocations := Hashtable.empty 4 (by decide)
  remoteTags := Hashtable.empty 4 (by decide)
  remoteCaps := Hashtable.empty 4 (by decide)
  remoteCoos := Hashtable.empty 4 (by decide)

instance : Inhabited Membership := ⟨new⟩

/-- `Membership::AddCredentialResult`. -/
inductive AddCredentialResult
  | rejected
  | acceptedNew
  | acceptedRedundant
  | deferredForWhois
deriving DecidableEq

/-- `Membership::credentialKey`. -/
def credentialKey (t : CredentialType) (i : UInt32) : UInt64 := t.toUInt64 <<< 32 ||| i.toUInt64

variable (ecc : Ecc) (known : KnownIdentities)

/-! ### Using what is kept -/

/-- `Membership::multicastLikeGate`. -/
def multicastLikeGate (m : Membership) (now : Int64) : Bool × Membership :=
  if 60000 ≤ now - m.lastUpdatedMulticast then (true, { m with lastUpdatedMulticast := now })
  else (false, m)

/-- `Membership::isAllowedOnNetwork`. -/
def isAllowedOnNetwork (m : Membership) (nconf : NetworkConfig) (other : Identity) : Bool :=
  nconf.isPublic ||
    (m.comRevocationThreshold < m.com.timestamp && nconf.com.agreesWith ecc m.com other)

section Valid

variable {C : Type} [Credential C]

/-- The credential is at or below the threshold of its type and id. -/
def isRevoked (revocations : Hashtable UInt64 Int64) (cred : C) : Bool :=
  (revocations.get (credentialKey (Credential.credentialType C) (Credential.id cred))).any
    (Credential.timestamp cred ≤ ·)

/-- `Membership::_isCredentialTimestampValid`. -/
def isCredentialTimestampValid (m : Membership) (nconf : NetworkConfig) (cred : C) : Bool :=
  let ts := Credential.timestamp cred
  (if nconf.timestamp ≤ ts then ts - nconf.timestamp else nconf.timestamp - ts)
      ≤ nconf.credentialTimeMaxDelta
    && !isRevoked m.revocations cred

/-- A valid credential is above its threshold. -/
theorem isCredentialTimestampValid_revoked {m : Membership} {nconf : NetworkConfig} {cred : C}
    (h : m.isCredentialTimestampValid nconf cred = true) :
    isRevoked m.revocations cred = false := by
  unfold isCredentialTimestampValid at h
  simp only [Bool.and_eq_true, Bool.not_eq_true'] at h
  exact h.2

end Valid

/-- `Membership::getTag`. -/
def getTag (m : Membership) (nconf : NetworkConfig) (id : UInt32) : Option Tag :=
  (m.remoteTags.get id).filter (m.isCredentialTimestampValid nconf)

/-- What `Membership::CapabilityIterator` goes through. -/
def validCapabilities (m : Membership) (nconf : NetworkConfig) : List Capability :=
  (m.remoteCaps.entries.map Prod.snd).filter (m.isCredentialTimestampValid nconf)

/-- The certificates of ownership that `hasCertificateOfOwnershipFor` asks. -/
def validCoos (m : Membership) (nconf : NetworkConfig) : List CertificateOfOwnership :=
  (m.remoteCoos.entries.map Prod.snd).filter (m.isCredentialTimestampValid nconf)

/-- The first `n` bytes of two IPv6 addresses are the same. -/
def prefixMatches (n : ℕ) (a b : InetAddress) : Bool :=
  a.ip6 >>> (128 - 8 * n) == b.ip6 >>> (128 - 8 * n)

/-- `Membership::_isV6NDPEmulated`, for an IP address. -/
def isV6NDPEmulated (nconf : NetworkConfig) (ip : InetAddress) : Bool :=
  let sixpl := InetAddress.makeIpv66plane nconf.networkId nconf.issuedTo
  let rfc4193 := InetAddress.makeIpv6rfc4193 nconf.networkId nconf.issuedTo
  ip.isV6 && nconf.ndpEmulation &&
    (nconf.staticIps.any (·.ipsEqual sixpl) && prefixMatches 5 ip sixpl
      || nconf.staticIps.any (·.ipsEqual rfc4193) && prefixMatches 11 ip rfc4193)

/-- `Membership::hasCertificateOfOwnershipFor`, for an IP address. -/
def hasCertificateOfOwnershipForIp (m : Membership) (nconf : NetworkConfig) (ip : InetAddress) :
    Bool :=
  (m.validCoos nconf).any (·.ownsIp ip) || isV6NDPEmulated nconf ip

/-- `Membership::hasCertificateOfOwnershipFor`, for a MAC address, which is never emulated. -/
def hasCertificateOfOwnershipForMac (m : Membership) (nconf : NetworkConfig) (mac : Mac) : Bool :=
  (m.validCoos nconf).any (·.ownsMac mac)

/-! ### Adding credentials -/

/-- `Membership::addCredential`, of a certificate of membership. -/
def addCom (m : Membership) (com : CertificateOfMembership) : AddCredentialResult × Membership :=
  if com.timestamp ≤ m.comRevocationThreshold then (.rejected, m)
  else if com.timestamp < m.com.timestamp then (.rejected, m)
  else if m.com = com then (.acceptedRedundant, m)
  else match com.verify ecc known with
    | .bad => (.rejected, m)
    | .ok => (.acceptedNew, { m with com := com })
    | .whois => (.deferredForWhois, m)

/-- `_addCredImpl`. -/
def addCredImpl {C : Type} [Credential C] [DecidableEq C] (remoteCreds : Hashtable UInt32 C)
    (revocations : Hashtable UInt64 Int64) (cred : C) : AddCredentialResult × Hashtable UInt32 C :=
  let rc := remoteCreds.get (Credential.id cred)
  if rc.any (Credential.timestamp cred < Credential.timestamp ·) then (.rejected, remoteCreds)
  else if rc = some cred then (.acceptedRedundant, remoteCreds)
  else if isRevoked revocations cred then (.rejected, remoteCreds)
  else match Credential.verify ecc known cred with
    | .bad => (.rejected, remoteCreds)
    | .ok => (.acceptedNew, remoteCreds.set (Credential.id cred) cred)
    | .whois => (.deferredForWhois, remoteCreds)

/-- `Membership::addCredential`, of a tag. -/
def addTag (m : Membership) (tag : Tag) : AddCredentialResult × Membership :=
  let r := addCredImpl ecc known m.remoteTags m.revocations tag
  (r.1, { m with remoteTags := r.2 })

/-- `Membership::addCredential`, of a capability. -/
def addCapability (m : Membership) (cap : Capability) : AddCredentialResult × Membership :=
  let r := addCredImpl ecc known m.remoteCaps m.revocations cap
  (r.1, { m with remoteCaps := r.2 })

/-- `Membership::addCredential`, of a certificate of ownership. -/
def addCoo (m : Membership) (coo : CertificateOfOwnership) : AddCredentialResult × Membership :=
  let r := addCredImpl ecc known m.remoteCoos m.revocations coo
  (r.1, { m with remoteCoos := r.2 })

/-- The types whose credentials are kept by id. -/
def keptById (t : CredentialType) : Bool :=
  t == CredentialType.capability || t == CredentialType.tag || t == CredentialType.coo

/-- `Membership::addCredential`, of a revocation. -/
def addRevocation (m : Membership) (rev : Revocation) : AddCredentialResult × Membership :=
  match rev.verify ecc known with
  | .bad => (.rejected, m)
  | .whois => (.deferredForWhois, m)
  | .ok =>
      if rev.type = CredentialType.com then
        if m.comRevocationThreshold < rev.threshold then
          (.acceptedNew, { m with comRevocationThreshold := rev.threshold })
        else (.acceptedRedundant, m)
      else if keptById rev.type then
        let key := credentialKey rev.type rev.credentialId
        if (m.revocations.get key).getD 0 < rev.threshold then
          -- the threshold of the certificate of membership is replaced as well
          (.acceptedNew, { m with
            revocations := m.revocations.set key rev.threshold
            comRevocationThreshold := rev.threshold })
        else
          -- the entry has been created by looking it up
          (.acceptedRedundant, { m with
            revocations := m.revocations.set key ((m.revocations.get key).getD 0) })
      else (.rejected, m)

/-- `Membership::clean`. -/
def clean (m : Membership) (nconf : NetworkConfig) : Membership :=
  { m with
    remoteTags := m.remoteTags.retain fun _ tag => m.isCredentialTimestampValid nconf tag
    remoteCaps := m.remoteCaps.retain fun _ cap => m.isCredentialTimestampValid nconf cap
    remoteCoos := m.remoteCoos.retain fun _ coo => m.isCredentialTimestampValid nconf coo }

/-! ### Thresholds -/

variable {ecc known}

/-- Credentials of the type and id are revoked up to `threshold`. -/
def RevokedUpTo (revocations : Hashtable UInt64 Int64) (t : CredentialType) (id : UInt32)
    (threshold : Int64) : Prop :=
  ∃ rt, revocations.get (credentialKey t id) = some rt ∧ threshold ≤ rt

theorem isRevoked_of_revokedUpTo {C : Type} [Credential C] {revocations : Hashtable UInt64 Int64}
    {cred : C} {threshold : Int64}
    (h : RevokedUpTo revocations (Credential.credentialType C) (Credential.id cred) threshold)
    (hts : Credential.timestamp cred ≤ threshold) : isRevoked revocations cred = true := by
  obtain ⟨rt, hrt, hle⟩ := h
  rw [isRevoked, hrt, Option.any_some, decide_eq_true_eq]
  exact Int64.le_trans hts hle

/-- A new credential was not revoked, and is what its id stands for now. -/
theorem addCredImpl_new {C : Type} [Credential C] [DecidableEq C] {remoteCreds : Hashtable UInt32 C}
    {revocations : Hashtable UInt64 Int64} {cred : C}
    (h : (addCredImpl ecc known remoteCreds revocations cred).1 = .acceptedNew) :
    isRevoked revocations cred = false ∧ Credential.verify ecc known cred = .ok := by
  unfold addCredImpl at h
  dsimp only at h
  split_ifs at h with h₁ h₂ h₃
  rcases hv : Credential.verify ecc known cred with - | - | -
  · exact ⟨by simpa using h₃, rfl⟩
  all_goals
    rw [hv] at h
    cases h

/-- Thresholds by credential never fall. -/
theorem revoked_mono {m : Membership} {rev : Revocation} {t : CredentialType} {id : UInt32}
    {threshold : Int64} (h : RevokedUpTo m.revocations t id threshold) :
    RevokedUpTo (m.addRevocation ecc known rev).2.revocations t id threshold := by
  obtain ⟨rt, hrt, hle⟩ := h
  unfold addRevocation
  rcases rev.verify ecc known with - | - | - <;> dsimp only
  · split_ifs with h₁ h₂ h₃ h₄
    · exact ⟨rt, hrt, hle⟩
    · exact ⟨rt, hrt, hle⟩
    · by_cases hk : credentialKey t id = credentialKey rev.type rev.credentialId
      · refine ⟨rev.threshold, by rw [Hashtable.get_set, if_pos hk], ?_⟩
        rw [← hk, hrt] at h₄
        exact Int64.le_trans hle (Int64.le_of_lt h₄)
      · exact ⟨rt, by rw [Hashtable.get_set, if_neg hk, hrt], hle⟩
    · by_cases hk : credentialKey t id = credentialKey rev.type rev.credentialId
      · refine ⟨rt, ?_, hle⟩
        rw [Hashtable.get_set, if_pos hk, ← hk, hrt, Option.getD_some]
      · exact ⟨rt, by rw [Hashtable.get_set, if_neg hk, hrt], hle⟩
    · exact ⟨rt, hrt, hle⟩
  · exact ⟨rt, hrt, hle⟩
  · exact ⟨rt, hrt, hle⟩

end Membership

end ZGalaxy
