/-
ZGalaxy/CredentialReaders.lean

Credentials as they are read from packets.

Each reader is the `deserialize` of a class.  The certificate of membership is the oldest and has a
form of its own; the others end alike, in a signature of a type of which only one is known and in
additional fields of which none are.  What a reader does not find is left as it was created, with
zeros.

A rule takes as many bytes as it says, and is read from where it begins whatever that number is.
There is a rule for every type (`Body.isSome_ofValues`).
The rules of a capability are counted before they are read, so the bound on them is carried along.
-/
import Mathlib.Tactic.IntervalCases
import ZGalaxy.World

namespace ZGalaxy

open ByteList

/-! ### Parts -/

namespace Buffer

/-- The next address. -/
def nextAddress : Reader ZTException Address := do
  let bits ← nextField addressLength
  pure (Address.ofBytes bits)

/-- The signature of a credential.  One of an unknown type is passed over. -/
def nextSignature : Reader ZTException Bytes := do
  let type ← nextByte
  let length ← nextUInt 2
  if type = 1 then
    if length ≠ eccSignatureLen then
      Reader.fail .invalidSerializedData
    else
      nextField eccSignatureLen
  else
    Reader.skip length
    pure (List.replicate eccSignatureLen 0)

/-- Additional fields are passed over, and must be there. -/
def skipFields : Reader ZTException Unit := do
  let length ← nextUInt 2
  fun b p => if b.length < p + length then .error .invalidSerializedData else .ok ((), p + length)

end Buffer

open Buffer

/-! ### Certificates of membership -/

namespace CertificateOfMembership

/-- `operator bool`. -/
def isSet (com : CertificateOfMembership) : Bool := !com.qualifiers.isEmpty

/-- The qualifiers, sorted by id: `n` more after `count`. -/
def readQualifiers : ℕ → ℕ → UInt64 → Reader ZTException (List Qualifier)
  | 0, _, _ => pure []
  | n + 1, count, lastId => do
      let qid ← nextUInt 8
      if UInt64.ofNat qid < lastId then
        Reader.fail .invalidSerializedData
      else if comMaxQualifiers ≤ count then
        Reader.fail .invalidSerializedData
      else
        let value ← nextUInt 8
        let maxDelta ← nextUInt 8
        let rest ← readQualifiers n (count + 1) (UInt64.ofNat qid)
        pure (⟨UInt64.ofNat qid, UInt64.ofNat value, UInt64.ofNat maxDelta⟩ :: rest)

/-- `CertificateOfMembership::deserialize`. -/
def deserialize : Reader ZTException CertificateOfMembership := do
  let type ← nextByte
  if type ≠ 1 then
    Reader.fail .invalidSerializedData
  else
    let numq ← nextUInt 2
    let qualifiers ← readQualifiers numq 0 0
    let signedBy ← nextAddress
    if signedBy.isSet then
      let signature ← nextField eccSignatureLen
      pure ⟨qualifiers, signedBy, signature⟩
    else
      pure ⟨qualifiers, signedBy, []⟩

end CertificateOfMembership

/-! ### Tags, certificates of ownership and revocations -/

/-- `Tag::deserialize`. -/
def Tag.deserialize : Reader ZTException Tag := do
  let networkId ← nextUInt 8
  let ts ← nextUInt 8
  let id ← nextUInt 4
  let value ← nextUInt 4
  let issuedTo ← nextAddress
  let signedBy ← nextAddress
  let signature ← nextSignature
  skipFields
  pure {
    id := UInt32.ofNat id
    value := UInt32.ofNat value
    networkId := BitVec.ofNat 64 networkId
    ts := (UInt64.ofNat ts).toInt64
    issuedTo := issuedTo
    signedBy := signedBy
    signature := signature }

namespace CertificateOfOwnership

/-- `ZT_CERTIFICATEOFOWNERSHIP_MAX_THINGS`. -/
def maxThings : ℕ := 16

/-- A thing with its value. -/
def readThing : Reader ZTException Thing := do
  let type ← nextByte
  let value ← nextField 16
  pure ⟨type, BitVec.ofNat 128 (beNat value)⟩

/-- `CertificateOfOwnership::deserialize`.  Things beyond the bound are not read. -/
def deserialize : Reader ZTException CertificateOfOwnership := do
  let networkId ← nextUInt 8
  let ts ← nextUInt 8
  let flags ← nextUInt 8
  let id ← nextUInt 4
  let thingCount ← nextUInt 2
  let things ← Reader.many readThing (min thingCount maxThings)
  let issuedTo ← nextAddress
  let signedBy ← nextAddress
  let signature ← nextSignature
  skipFields
  pure {
    networkId := BitVec.ofNat 64 networkId
    ts := (UInt64.ofNat ts).toInt64
    flags := UInt64.ofNat flags
    id := UInt32.ofNat id
    things := things
    issuedTo := issuedTo
    signedBy := signedBy
    signature := signature }

end CertificateOfOwnership

/-- `Revocation::deserialize`. -/
def Revocation.deserialize : Reader ZTException Revocation := do
  Reader.skip 4
  let id ← nextUInt 4
  let networkId ← nextUInt 8
  Reader.skip 4
  let credentialId ← nextUInt 4
  let threshold ← nextUInt 8
  let flags ← nextUInt 8
  let target ← nextAddress
  let signedBy ← nextAddress
  let type ← nextByte
  let signature ← nextSignature
  skipFields
  pure {
    id := UInt32.ofNat id
    credentialId := UInt32.ofNat credentialId
    networkId := BitVec.ofNat 64 networkId
    threshold := (UInt64.ofNat threshold).toInt64
    flags := UInt64.ofNat flags
    target := target
    signedBy := signedBy
    type := type
    signature := signature }

/-! ### Capabilities -/

/-- Unsigned integers of these widths, one after another. -/
def readValues : List ℕ → Reader ZTException (List ℕ)
  | [] => pure []
  | width :: widths => do
      let v ← nextUInt width
      let vs ← readValues widths
      pure (v :: vs)

/-- The rule with a type byte and these arguments. -/
def Rule.ofValues (t : UInt8) (values : List ℕ) : Option Rule :=
  (Body.ofValues (t.toNat % 64) values).map fun body => ⟨128 ≤ t.toNat, 64 ≤ t.toNat % 128, body⟩

/-- There is a rule for every type. -/
theorem Body.isSome_ofValues {rt : ℕ} (h : rt < 64) {values : List ℕ}
    (hlen : values.length = (fieldWidths rt).length) : (Body.ofValues rt values).isSome = true := by
  interval_cases rt
  all_goals
    first
    | rfl
    | obtain ⟨a, rfl⟩ := List.length_eq_one_iff.mp hlen
      rfl
    | obtain ⟨a, b, rfl⟩ := List.length_eq_two.mp hlen
      rfl
    | obtain ⟨a, b, c, rfl⟩ := List.length_eq_three.mp hlen
      rfl
    | obtain ⟨a, b, c, d, rfl⟩ := List.length_eq_four.mp hlen
      rfl

/-- One turn of the loop of `Capability::deserializeRules`.  What follows begins where the size
says, wherever the arguments end. -/
def readRule : Reader ZTException Rule := do
  let t ← nextByte
  let fieldLen ← nextByte
  fun b p => match readValues (fieldWidths (t.toNat % 64)) b p with
    | .error e => .error e
    | .ok (values, _) =>
        match Rule.ofValues t values with
        | some rule => .ok (rule, p + fieldLen.toNat)
        | none => .error .invalidSerializedData

/-- `Capability::deserializeRules`: at most `n` rules, fewer when the packet ends. -/
def deserializeRules : (n : ℕ) → Reader ZTException {rules : List Rule // rules.length ≤ n}
  | 0 => pure ⟨[], le_refl 0⟩
  | n + 1 => fun b p =>
      if b.length ≤ p then .ok (⟨[], Nat.zero_le _⟩, p)
      else
        (do let rule ← readRule
            let rules ← deserializeRules n
            pure ⟨rule :: rules.val, Nat.succ_le_succ rules.property⟩ :
          Reader ZTException {rules : List Rule // rules.length ≤ n + 1}) b p

/-- The chain of custody, up to the null address that ends it. -/
def readCustody : ℕ → Reader ZTException (List Custody)
  | 0 => do
      let to_ ← nextAddress
      if to_.isSet then Reader.fail .invalidSerializedData else pure []
  | n + 1 => do
      let to_ ← nextAddress
      if to_.isSet then
        let from_ ← nextAddress
        let signature ← nextSignature
        let rest ← readCustody n
        pure (⟨to_, from_, signature⟩ :: rest)
      else
        pure []

/-- `Capability::deserialize`. -/
def Capability.deserialize : Reader ZTException Capability := do
  let nwid ← nextUInt 8
  let ts ← nextUInt 8
  let id ← nextUInt 4
  let rc ← nextUInt 2
  if h : maxCapabilityRules < rc then
    Reader.fail .invalidSerializedData
  else
    let rules ← deserializeRules rc
    let maxCustodyChainLength ← nextByte
    if maxCustodyChainLength < 1 ∨
      maxCapabilityCustodyChainLength < maxCustodyChainLength.toNat then
      Reader.fail .invalidSerializedData
    else
      let custody ← readCustody maxCustodyChainLength.toNat
      skipFields
      pure {
        nwid := BitVec.ofNat 64 nwid
        ts := (UInt64.ofNat ts).toInt64
        id := UInt32.ofNat id
        maxCustodyChainLength := maxCustodyChainLength.toNat
        rules := rules.val
        custody := fun i => custody.getD i ⟨0, 0, List.replicate eccSignatureLen 0⟩
        rules_le := le_trans rules.property (not_lt.mp h) }

end ZGalaxy
