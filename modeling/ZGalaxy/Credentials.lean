/-
ZGalaxy/Credentials.lean

The credentials that members of a network show each other.

Tags, certificates of ownership and revocations are signed by the controller of
their network, and are checked alike (`verifySigned`).  A certificate of membership is
a row of qualifiers.  A capability carries rules and a chain of custody in which
every holder signs it over to the next one.

The bytes a credential is signed as begin and end with a marker and have their
fields at fixed places in between.  Signatures, the hash of a public key and the
identities that a node knows (`Topology::getIdentity`) are parameters.  Checking an
unknown signer's credential is put off until the signer is known (`whois`).
-/
import ZGalaxy.Rules
import Mathlib.Data.Fintype.Pi

namespace ZGalaxy

open ByteList

/-! ### Identities and signatures -/

/-- The public part of an `Identity`. -/
structure Identity where
  address : Address
  publicKey : Bytes
deriving DecidableEq

/-- The cryptography of credentials: `ECC::verify` (public key, data, signature) and
`SHA384`. -/
structure Ecc where
  verify : Bytes → Bytes → Bytes → Bool
  sha384 : Bytes → Bytes

/-- The identities a node knows by address: `Topology::getIdentity`. -/
abbrev KnownIdentities := Address → Option Identity

/-- `0`, `1` and `-1`. -/
inductive VerifyResult
  | ok
  | whois
  | bad
deriving DecidableEq

variable (ecc : Ecc) (known : KnownIdentities)

/-- The part of every check that the signature decides. -/
def verifySignature (signer : Address) (data signature : Bytes) : VerifyResult :=
  match known signer with
  | none => .whois
  | some id => if ecc.verify id.publicKey data signature then .ok else .bad

/-- `verify` of the credentials that only the controller signs. -/
def verifySigned (signedBy : Address) (nwid : NetworkId) (data signature : Bytes) : VerifyResult :=
  if signedBy = 0 ∨ signedBy ≠ Address.controllerFor nwid then .bad
  else verifySignature ecc known signedBy data signature

variable {ecc known} in
theorem verifySignature_ok {signer : Address} {data signature : Bytes} :
    verifySignature ecc known signer data signature = .ok ↔
      ∃ id, known signer = some id ∧ ecc.verify id.publicKey data signature = true := by
  unfold verifySignature
  rcases known signer with - | id
  · simp
  · by_cases h : ecc.verify id.publicKey data signature <;> simp [h]

/-- The four words of `Identity::publicKeyHash` that a certificate of membership holds. -/
def publicKeyHash (ecc : Ecc) (id : Identity) (i : ℕ) : UInt64 :=
  UInt64.ofNat (beNat (slice (ecc.sha384 (Address.toBytes id.address ++ id.publicKey)) (8 * i) 8))

/-- The number at both ends of what is signed. -/
def signMarker : Bytes := List.replicate 8 0x7f

/-- An `int64_t` in a buffer. -/
def timestampBytes (ts : Int64) : Bytes := beBytes 8 ts.toUInt64.toNat

/-- A network id in a buffer. -/
def networkIdBytes (nwid : NetworkId) : Bytes := beBytes 8 nwid.toNat

/-! ### Credential types -/

/-- `Credential::Type`. -/
abbrev CredentialType := UInt8

namespace CredentialType

/-- `CREDENTIAL_TYPE_COM`. -/
def com : CredentialType := 1
/-- `CREDENTIAL_TYPE_CAPABILITY`. -/
def capability : CredentialType := 2
/-- `CREDENTIAL_TYPE_TAG`. -/
def tag : CredentialType := 3
/-- `CREDENTIAL_TYPE_COO`. -/
def coo : CredentialType := 4

end CredentialType

/-- What the credentials that are kept by id have in common. -/
class Credential (C : Type) where
  credentialType : CredentialType
  id : C → UInt32
  timestamp : C → Int64
  verify : Ecc → KnownIdentities → C → VerifyResult

/-! ### Tags -/

/-- `Tag`. -/
structure Tag where
  id : UInt32
  value : UInt32
  networkId : NetworkId
  ts : Int64
  issuedTo : Address
  signedBy : Address
  signature : Bytes
deriving DecidableEq

namespace Tag

/-- `Tag::serialize`, for signing. -/
def forSign (t : Tag) : Bytes :=
  signMarker ++ networkIdBytes t.networkId ++ timestampBytes t.ts ++ beBytes 4 t.id.toNat
    ++ beBytes 4 t.value.toNat ++ Address.toBytes t.issuedTo ++ Address.toBytes t.signedBy
    ++ [0, 0] ++ signMarker

/-- `Tag::verify`. -/
def verify (t : Tag) : VerifyResult :=
  verifySigned ecc known t.signedBy t.networkId t.forSign t.signature

instance : Credential Tag where
  credentialType := CredentialType.tag
  id := Tag.id
  timestamp := Tag.ts
  verify := Tag.verify

end Tag

/-! ### Certificates of ownership -/

/-- A thing of a certificate of ownership: its type, and its value filled up to 16
bytes. -/
structure Thing where
  type : UInt8
  value : BitVec 128
deriving DecidableEq

/-- `CertificateOfOwnership`, with the things that `_thingCount` counts. -/
structure CertificateOfOwnership where
  networkId : NetworkId
  ts : Int64
  flags : UInt64
  id : UInt32
  things : List Thing
  issuedTo : Address
  signedBy : Address
  signature : Bytes
deriving DecidableEq

namespace CertificateOfOwnership

/-- `_owns`: some thing of the type begins with the bytes `v`. -/
def ownsThing (coo : CertificateOfOwnership) (type : UInt8) {l : ℕ} (v : BitVec l) : Bool :=
  coo.things.any fun thing => thing.type == type && (thing.value >>> (128 - l)).setWidth l == v

/-- `owns(const InetAddress &)`. -/
def ownsIp (coo : CertificateOfOwnership) : InetAddress → Bool
  | .nil => false
  | .v4 ip _ => coo.ownsThing 2 ip
  | .v6 ip _ => coo.ownsThing 3 ip

/-- `owns(const MAC &)`. -/
def ownsMac (coo : CertificateOfOwnership) (mac : Mac) : Bool := coo.ownsThing 1 mac

/-- `CertificateOfOwnership::serialize`, for signing. -/
def forSign (coo : CertificateOfOwnership) : Bytes :=
  signMarker ++ networkIdBytes coo.networkId ++ timestampBytes coo.ts ++ beBytes 8 coo.flags.toNat
    ++ beBytes 4 coo.id.toNat ++ beBytes 2 coo.things.length
    ++ coo.things.flatMap (fun thing => thing.type :: beBytes 16 thing.value.toNat)
    ++ Address.toBytes coo.issuedTo ++ Address.toBytes coo.signedBy ++ [0, 0] ++ signMarker

/-- `CertificateOfOwnership::verify`. -/
def verify (coo : CertificateOfOwnership) : VerifyResult :=
  verifySigned ecc known coo.signedBy coo.networkId coo.forSign coo.signature

instance : Credential CertificateOfOwnership where
  credentialType := CredentialType.coo
  id := CertificateOfOwnership.id
  timestamp := CertificateOfOwnership.ts
  verify := CertificateOfOwnership.verify

end CertificateOfOwnership

/-! ### Revocations -/

/-- `Revocation`. -/
structure Revocation where
  id : UInt32
  credentialId : UInt32
  networkId : NetworkId
  threshold : Int64
  flags : UInt64
  target : Address
  signedBy : Address
  type : CredentialType
  signature : Bytes
deriving DecidableEq

namespace Revocation

/-- `Revocation::serialize`, for signing. -/
def forSign (rev : Revocation) : Bytes :=
  signMarker ++ [0, 0, 0, 0] ++ beBytes 4 rev.id.toNat ++ networkIdBytes rev.networkId
    ++ [0, 0, 0, 0] ++ beBytes 4 rev.credentialId.toNat ++ timestampBytes rev.threshold
    ++ beBytes 8 rev.flags.toNat ++ Address.toBytes rev.target ++ Address.toBytes rev.signedBy
    ++ [rev.type] ++ [0, 0] ++ signMarker

/-- `Revocation::verify`. -/
def verify (rev : Revocation) : VerifyResult :=
  verifySigned ecc known rev.signedBy rev.networkId rev.forSign rev.signature

end Revocation

/-! ### Certificates of membership -/

/-- `CertificateOfMembership::_Qualifier`. -/
structure Qualifier where
  id : UInt64
  value : UInt64
  maxDelta : UInt64
deriving DecidableEq

/-- `ZT_NETWORK_COM_MAX_QUALIFIERS`. -/
def comMaxQualifiers : ℕ := 8

/-- `CertificateOfMembership`, with the qualifiers that `_qualifierCount` counts. -/
structure CertificateOfMembership where
  qualifiers : List Qualifier
  signedBy : Address
  signature : Bytes
deriving DecidableEq

namespace CertificateOfMembership

/-- The certificate without qualifiers that a node starts from. -/
def empty : CertificateOfMembership := ⟨[], 0, []⟩

/-- The value of the first qualifier with a reserved id, zero if there is none. -/
def reservedValue (com : CertificateOfMembership) (id : UInt64) : UInt64 :=
  ((com.qualifiers.find? fun q => q.id = id).map Qualifier.value).getD 0

/-- `CertificateOfMembership::timestamp`. -/
def timestamp (com : CertificateOfMembership) : Int64 := (com.reservedValue 0).toInt64

/-- `CertificateOfMembership::networkId`. -/
def networkId (com : CertificateOfMembership) : NetworkId := (com.reservedValue 1).toBitVec

/-- `CertificateOfMembership::issuedTo`. -/
def issuedTo (com : CertificateOfMembership) : Address :=
  Address.ofUInt64 (com.reservedValue 2).toBitVec

/-- The map `otherFields` of `agreesWith`, in which the last qualifier of an id counts. -/
def field (com : CertificateOfMembership) (id : UInt64) : Option UInt64 :=
  (com.qualifiers.reverse.find? fun q => q.id = id).map Qualifier.value

/-- The distance of two values. -/
def delta (a b : UInt64) : UInt64 := if b ≤ a then a - b else b - a

/-- The loop of `agreesWith` over this certificate's qualifiers. -/
def qualifiersAgree (com other : CertificateOfMembership) : Bool :=
  com.qualifiers.all fun q => (other.field q.id).any fun b => !(q.maxDelta < delta q.value b)

/-- `CertificateOfMembership::agreesWith`.  The hash of the other's identity is compared
only if this certificate has one of its own identity. -/
def agreesWith (com other : CertificateOfMembership) (otherIdentity : Identity) : Bool :=
  !com.qualifiers.isEmpty && !other.qualifiers.isEmpty && com.qualifiersAgree other
    && (!(com.qualifiers.any fun q => 3 ≤ q.id && q.id ≤ 6)
      || (List.range 4).all fun i =>
          other.field (UInt64.ofNat (i + 3)) == some (publicKeyHash ecc otherIdentity i))

/-- The qualifiers as `sign` and `verify` lay them out. -/
def forSign (com : CertificateOfMembership) : Bytes :=
  com.qualifiers.flatMap fun q =>
    beBytes 8 q.id.toNat ++ beBytes 8 q.value.toNat ++ beBytes 8 q.maxDelta.toNat

/-- `CertificateOfMembership::verify`. -/
def verify (com : CertificateOfMembership) : VerifyResult :=
  if com.signedBy = 0 ∨ com.signedBy ≠ Address.controllerFor com.networkId
      ∨ comMaxQualifiers < com.qualifiers.length then .bad
  else verifySignature ecc known com.signedBy com.forSign com.signature

end CertificateOfMembership

/-! ### Capabilities -/

/-- `ZT_MAX_CAPABILITY_RULES`. -/
def maxCapabilityRules : ℕ := 64

/-- `ZT_MAX_CAPABILITY_CUSTODY_CHAIN_LENGTH`. -/
def maxCapabilityCustodyChainLength : ℕ := 7

/-- An entry of a capability's chain of custody. -/
structure Custody where
  to_ : Address
  from_ : Address
  signature : Bytes
deriving DecidableEq

/-- `Capability`. -/
structure Capability where
  nwid : NetworkId
  ts : Int64
  id : UInt32
  maxCustodyChainLength : ℕ
  rules : List Rule
  custody : Fin maxCapabilityCustodyChainLength → Custody
  rules_le : rules.length ≤ maxCapabilityRules
deriving DecidableEq

namespace Capability

/-- `Capability::serialize`, for signing: without the chain of custody. -/
def forSign (cap : Capability) : Bytes :=
  signMarker ++ networkIdBytes cap.nwid ++ timestampBytes cap.ts ++ beBytes 4 cap.id.toNat
    ++ beBytes 2 cap.rules.length ++ serializeRules cap.rules
    ++ [UInt8.ofNat cap.maxCustodyChainLength] ++ [0, 0] ++ signMarker

/-- `Capability::issuedTo`: the last holder of the chain before its first gap. -/
def issuedTo (cap : Capability) : Address :=
  (((List.ofFn cap.custody).map Custody.to_).takeWhile (· ≠ 0)).getLastD 0

/-- The entries of the chain that `verify` looks at. -/
def chain (cap : Capability) : List Custody :=
  (List.ofFn cap.custody).take cap.maxCustodyChainLength

/-- The loop of `verify` from an entry on, after the holder `prev`, or at the beginning
of the chain. -/
def verifyChain (nwid : NetworkId) (data : Bytes) : Option Address → List Custody → VerifyResult
  | _, [] => .ok
  | none, c :: chain =>
      if c.to_ = 0 ∨ c.from_ = 0 ∨ c.from_ ≠ Address.controllerFor nwid then .bad
      else match verifySignature ecc known c.from_ data c.signature with
        | .ok => verifyChain nwid data (some c.to_) chain
        | r => r
  | some prev, c :: chain =>
      if c.to_ = 0 then .ok
      else if c.from_ = 0 ∨ c.from_ ≠ prev then .bad
      else match verifySignature ecc known c.from_ data c.signature with
        | .ok => verifyChain nwid data (some c.to_) chain
        | r => r

/-- `Capability::verify`. -/
def verify (cap : Capability) : VerifyResult :=
  if cap.maxCustodyChainLength < 1 ∨
    maxCapabilityCustodyChainLength < cap.maxCustodyChainLength then
    .bad
  else verifyChain ecc known cap.nwid cap.forSign none cap.chain

/-- `Capability::sign`: the first free entry of the chain gets the holder, the signer and a
signature.  What is signed is made before the holder is entered. -/
def sign (cap : Capability) (signer : Address) (signature : Bytes → Bytes) (to_ : Address) :
    Option Capability :=
  ((List.finRange maxCapabilityCustodyChainLength).find? fun i =>
      i.val < cap.maxCustodyChainLength ∧ (cap.custody i).to_ = 0).map fun i =>
    { cap with custody := Function.update cap.custody i ⟨to_, signer, signature cap.forSign⟩ }

instance : Credential Capability where
  credentialType := CredentialType.capability
  id := Capability.id
  timestamp := Capability.ts
  verify := Capability.verify

end Capability

end ZGalaxy
