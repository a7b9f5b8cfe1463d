/-
ZGalaxy/ConfigDictionary.lean

Reading the configuration of a network from a dictionary.

Numbers are hexadecimal text under short keys; the lists are blobs, each with a loop of its own.
What `fromDictionary` sets is set one field after another, so that it is there also when it returns
false: because the network or the member is missing, because the version is too old, or because an
exception came from a reader.  An entry that could not be read is left blank here.

Two of the loops catch the exceptions themselves and keep what they have read.  They are also the
two that never ask whether there is room in the array.
-/
import ZGalaxy.CredentialReaders
import ZGalaxy.Entries
import ZGalaxy.Filling

namespace CString

/-- `strtoll`: like `strtoull`, of a number with a sign.  What is too large or too small becomes the
largest number or the smallest. -/
def strtoll (base : ℕ) (s : String) : Int64 :=
  let signed := sign (s.toList.dropWhile isSpace)
  let n := digits base 0 (skipBase base signed.2)
  if signed.1 then Int64.ofInt (-(min n 9223372036854775808 : ℕ))
  else Int64.ofInt (min n 9223372036854775807 : ℕ)

end CString

namespace ZGalaxy

open ByteList Filling

/-! ### Typed entries -/

namespace Dictionary

/-- A key of printable characters. -/
def keyBytes (key : String) : Bytes := key.toList.map fun c => UInt8.ofNat c.toNat

/-- The characters of a C string. -/
def characters (b : Bytes) : String := String.ofList (b.map fun c => Char.ofNat c.toNat)

section Typed

variable (C : ℕ) (d : Bytes) (key : String)

/-- `Dictionary::getUI`. -/
def getUI (dfl : UInt64) : Except Fault UInt64 := do
  let r ← get C d (keyBytes key) 128
  pure (if 1 ≤ r.1 then CString.strtoull 16 (characters (text r.2)) else dfl)

/-- `Dictionary::getI`. -/
def getI (dfl : Int64) : Except Fault Int64 := do
  let r ← get C d (keyBytes key) 128
  pure (if 1 ≤ r.1 then CString.strtoll 16 (characters (text r.2)) else dfl)

/-- `Dictionary::getB`: whether the value begins with `1`, `t` or `T`. -/
def getB (dfl : Bool) : Except Fault Bool := do
  let r ← get C d (keyBytes key) 4
  pure (if 0 ≤ r.1 then [49, 116, 84].contains (r.2.headD 0) else dfl)

/-- `Dictionary::get`, into a buffer of the capacity of the dictionary. -/
def getBlob : Except Fault (Option Bytes) := do
  let r ← get C d (keyBytes key) C
  pure (if 0 ≤ r.1 then some (r.2.take r.1.toNat) else none)

/-- `Dictionary::get`, into an array of characters: what is returned, and the C string. -/
def getText (size : ℕ) : Except Fault (ℤ × Bytes) := do
  let r ← get C d (keyBytes key) size
  pure (r.1, text r.2)

end Typed

end Dictionary

/-! ### The fields -/

/-- `ZT_MAX_NETWORK_CAPABILITIES`. -/
def maxNetworkCapabilities : ℕ := 128

/-- `ZT_MAX_NETWORK_TAGS`. -/
def maxNetworkTags : ℕ := 128

/-- `ZT_MAX_CERTIFICATES_OF_OWNERSHIP`. -/
def maxCertificatesOfOwnership : ℕ := 4

/-- `ZT_MAX_NETWORK_SPECIALISTS`. -/
def maxNetworkSpecialists : ℕ := 512

/-- `ZT_MAX_NETWORK_ROUTES`. -/
def maxNetworkRoutes : ℕ := 128

/-- `ZT_MAX_ZT_ASSIGNED_ADDRESSES`. -/
def maxAssignedAddresses : ℕ := 32

/-- `ZT_MAX_DNS_SERVERS`. -/
def maxDnsServers : ℕ := 4

/-- `ZT_NETWORKCONFIG_DICT_CAPACITY`, where addresses of memory have 64 bits. -/
def networkConfigDictCapacity : ℕ := 486568

/-- `ZT_VirtualNetworkRoute`. -/
structure VirtualNetworkRoute where
  target : InetAddress
  via : InetAddress
  flags : UInt16
  metric : UInt16
deriving DecidableEq

/-- `ZT_VirtualNetworkDNS`. -/
structure VirtualNetworkDNS where
  domain : Bytes
  servers : List InetAddress
deriving DecidableEq

/-- All fields of `NetworkConfig`.  An array is the list of its entries. -/
structure ConfigFields where
  networkId : UInt64
  timestamp : Int64
  credentialTimeMaxDelta : Int64
  revision : UInt64
  issuedTo : Address
  remoteTraceTarget : Address
  remoteTraceLevel : UInt32
  multicastLimit : UInt32
  name : Bytes
  mtu : UInt32
  flags : UInt64
  type : UInt32
  com : CertificateOfMembership
  capabilities : List Capability
  tags : List Tag
  certificatesOfOwnership : List CertificateOfOwnership
  specialists : List UInt64
  routes : List VirtualNetworkRoute
  staticIps : List InetAddress
  rules : List Rule
  dns : VirtualNetworkDNS
  ssoVersion : UInt64
  ssoEnabled : Bool
  authenticationURL : Bytes
  authenticationExpiryTime : UInt64
  issuerURL : Bytes
  centralAuthURL : Bytes
  ssoNonce : Bytes
  ssoState : Bytes
  ssoClientID : Bytes
  ssoProvider : Bytes
deriving DecidableEq

/-- `"default"`. -/
def defaultProvider : Bytes := Dictionary.keyBytes "default"

/-- `NIL_NC`. -/
def ConfigFields.nil : ConfigFields where
  networkId := 0
  timestamp := 0
  credentialTimeMaxDelta := 0
  revision := 0
  issuedTo := 0
  remoteTraceTarget := 0
  remoteTraceLevel := 0
  multicastLimit := 0
  name := []
  mtu := 0
  flags := 0
  type := 0
  com := CertificateOfMembership.empty
  capabilities := []
  tags := []
  certificatesOfOwnership := []
  specialists := []
  routes := []
  staticIps := []
  rules := []
  dns := ⟨[], []⟩
  ssoVersion := 0
  ssoEnabled := false
  authenticationURL := []
  authenticationExpiryTime := 0
  issuerURL := []
  centralAuthURL := []
  ssoNonce := []
  ssoState := []
  ssoClientID := []
  ssoProvider := defaultProvider

namespace ConfigFields

/-- Why reading goes no further: with `return false`, with an exception, because of a write behind
an array, in a loop without an end, or at a fault of the dictionary. -/
inductive Stop
  | rejected (nc : ConfigFields)
  | thrown (nc : ConfigFields)
  | overrun
  | endless
  | fault (f : Dictionary.Fault)

/-- What is looked up in the dictionary. -/
def lookedUp {α : Type} : Except Dictionary.Fault α → Except Stop α := Except.mapError Stop.fault

/-- The array that a loop has filled is set. -/
def filled {α : Type} (set : List α → ConfigFields) : Filled α → Except Stop ConfigFields
  | .all xs => .ok (set xs)
  | .thrown xs => .error (.thrown (set xs))
  | .overrun => .error .overrun
  | .endless => .error .endless

section Reading

open Dictionary

variable (C : ℕ) (d : Bytes)

/-- The network and the member. -/
def readIds (nc : ConfigFields) : Except Stop ConfigFields := do
  let networkId ← lookedUp (getUI C d "nwid" 0)
  let nc := { nc with networkId := networkId }
  if networkId = 0 then .error (.rejected nc)
  else do
    let timestamp ← lookedUp (getUI C d "ts" 0)
    let credentialTimeMaxDelta ← lookedUp (getUI C d "ctmd" 0)
    let revision ← lookedUp (getUI C d "r" 0)
    let issuedTo ← lookedUp (getUI C d "id" 0)
    let nc := { nc with
      timestamp := timestamp.toInt64
      credentialTimeMaxDelta := credentialTimeMaxDelta.toInt64
      revision := revision
      issuedTo := Address.ofUInt64 issuedTo.toBitVec }
    if nc.issuedTo.isSet then pure nc else .error (.rejected nc)

/-- The MTU, within its bounds. -/
def clampMtu (mtu : UInt32) : UInt32 :=
  if mtu < 1280 then 1280 else if 10000 < mtu then 10000 else mtu

/-- What else is always there, and the type, if the version is not too old. -/
def readScalars (nc : ConfigFields) : Except Stop ConfigFields := do
  let remoteTraceTarget ← lookedUp (getUI C d "tt" 0)
  let remoteTraceLevel ← lookedUp (getUI C d "tl" 0)
  let multicastLimit ← lookedUp (getUI C d "ml" 0)
  let name ← lookedUp (getText C d "n" 128)
  let mtu ← lookedUp (getUI C d "mtu" 2800)
  let nc := { nc with
    remoteTraceTarget := Address.ofUInt64 remoteTraceTarget.toBitVec
    remoteTraceLevel := remoteTraceLevel.toUInt32
    multicastLimit := multicastLimit.toUInt32
    name := name.2
    mtu := clampMtu mtu.toUInt32 }
  let version ← lookedUp (getUI C d "v" 0)
  if version < 6 then .error (.rejected nc)
  else do
    let flags ← lookedUp (getUI C d "f" 0)
    let type ← lookedUp (getUI C d "t" 0)
    pure { nc with
      flags := flags
      type := type.toUInt32 }

/-- A blob, if there is one, changes the fields. -/
def withBlob (key : String) (nc : ConfigFields) (set : Bytes → Except Stop ConfigFields) :
    Except Stop ConfigFields := do
  let blob ← lookedUp (getBlob C d key)
  match blob with
  | none => pure nc
  | some b => set b

/-- The certificate of membership. -/
def readCom (nc : ConfigFields) : Except Stop ConfigFields :=
  withBlob C d "C" nc fun b =>
    match CertificateOfMembership.deserialize b 0 with
    | .error _ => .error (.thrown nc)
    | .ok r => .ok { nc with com := r.1 }

/-- The capabilities, sorted by id. -/
def readCapabilities (nc : ConfigFields) : Except Stop ConfigFields :=
  withBlob C d "CAP" nc fun b =>
    filled (fun xs => { nc with capabilities := xs.mergeSort fun x y => x.id ≤ y.id })
      (caught maxNetworkCapabilities Capability.deserialize b (b.length + 1) 0 nc.capabilities)

/-- The tags, sorted by id. -/
def readTags (nc : ConfigFields) : Except Stop ConfigFields :=
  withBlob C d "TAG" nc fun b =>
    filled (fun xs => { nc with tags := xs.mergeSort fun x y => x.id ≤ y.id })
      (caught maxNetworkTags Tag.deserialize b (b.length + 1) 0 nc.tags)

/-- A certificate of ownership that was not read. -/
def blankCoo : CertificateOfOwnership where
  networkId := 0
  ts := 0
  flags := 0
  id := 0
  things := []
  issuedTo := 0
  signedBy := 0
  signature := List.replicate eccSignatureLen 0

/-- The certificates of ownership. -/
def readCoos (nc : ConfigFields) : Except Stop ConfigFields :=
  withBlob C d "COO" nc fun b =>
    filled (fun xs => { nc with certificatesOfOwnership := xs })
      (discarding maxCertificatesOfOwnership CertificateOfOwnership.deserialize blankCoo b
        (b.length + 1) 0 nc.certificatesOfOwnership)

/-- The specialists. -/
def readSpecialists (nc : ConfigFields) : Except Stop ConfigFields :=
  withBlob C d "S" nc fun b =>
    filled (fun xs => { nc with specialists := xs })
      (strides maxNetworkSpecialists b 8 (fun b p => UInt64.ofNat (beNat (slice b p 8)))
        (b.length + 1) 0 nc.specialists)

/-- A route. -/
def readRoute : Reader ZTException VirtualNetworkRoute := do
  let target ← InetAddress.deserialize
  let via ← InetAddress.deserialize
  let flags ← Buffer.nextUInt 2
  let metric ← Buffer.nextUInt 2
  pure ⟨target, via, UInt16.ofNat flags, UInt16.ofNat metric⟩

/-- The routes. -/
def readRoutes (nc : ConfigFields) : Except Stop ConfigFields :=
  withBlob C d "RT" nc fun b =>
    filled (fun xs => { nc with routes := xs })
      (stopping maxNetworkRoutes readRoute ⟨.nil, .nil, 0, 0⟩ b false (b.length + 1) 0 nc.routes)

/-- The static addresses. -/
def readStaticIps (nc : ConfigFields) : Except Stop ConfigFields :=
  withBlob C d "I" nc fun b =>
    filled (fun xs => { nc with staticIps := xs })
      (stopping maxAssignedAddresses InetAddress.deserialize .nil b true (b.length + 1) 0
        nc.staticIps)

/-- The rules that are read before the bytes end, there are `n`, or one cannot be read. -/
def rulesBefore (b : Bytes) : ℕ → ℕ → List Rule
  | 0, _ => []
  | n + 1, p =>
      if b.length ≤ p then []
      else
        match readRule b p with
        | .error _ => []
        | .ok r => r.1 :: rulesBefore b n r.2

/-- The rules.  How many are written is what `deserializeRules` is told. -/
def readRules (nc : ConfigFields) : Except Stop ConfigFields :=
  withBlob C d "R" nc fun b =>
    match deserializeRules maxNetworkRules b 0 with
    | .error _ => .error (.thrown { nc with rules := rulesBefore b maxNetworkRules 0 })
    | .ok r => .ok { nc with rules := r.1.val }

/-- The loop over the name servers, after `j` of them. -/
def readServers (b : Bytes) : ℕ → ℕ → List InetAddress → Filled InetAddress
  | 0, _, xs => .all xs
  | n + 1, p, xs =>
      place maxDnsServers xs
        (match InetAddress.deserialize b p with
        | .error _ => .thrown (xs ++ [.nil])
        | .ok r => readServers b n r.2 (xs ++ [r.1]))

/-- `DNS::deserializeDNS`.  The domain is what a C string of at most 127 bytes would be. -/
def readDns (nc : ConfigFields) : Except Stop ConfigFields :=
  withBlob C d "DNS" nc fun b =>
    filled (fun xs => { nc with dns := ⟨(text b).take 127, xs⟩ })
      (readServers b maxDnsServers 128 [])

/-- Single sign-on.  A text that is not found is empty, but for the provider. -/
def readSso (nc : ConfigFields) : Except Stop ConfigFields := do
  let ssoVersion ← lookedUp (getUI C d "ssov" 0)
  let ssoEnabled ← lookedUp (getB C d "ssoe" false)
  let nc := { nc with
    ssoVersion := ssoVersion
    ssoEnabled := ssoEnabled }
  if ssoVersion = 0 then
    -- implicit flow
    if ssoEnabled then do
      let authenticationURL ← lookedUp (getText C d "aurl" 2048)
      let authenticationExpiryTime ← lookedUp (getI C d "aexpt" 0)
      pure { nc with
        authenticationURL := authenticationURL.2
        authenticationExpiryTime := authenticationExpiryTime.toUInt64 }
    else pure { nc with
      authenticationURL := []
      authenticationExpiryTime := 0 }
  else if ssoVersion = 1 then
    -- full flow
    if ssoEnabled then do
      let authenticationURL ← lookedUp (getText C d "aurl" 2048)
      let issuerURL ← lookedUp (getText C d "iurl" 2048)
      let centralAuthURL ← lookedUp (getText C d "ssoce" 2048)
      let ssoNonce ← lookedUp (getText C d "sson" 128)
      let ssoState ← lookedUp (getText C d "ssos" 256)
      let ssoClientID ← lookedUp (getText C d "ssocid" 256)
      let ssoProvider ← lookedUp (getText C d "ssop" 64)
      pure { nc with
        authenticationURL := authenticationURL.2
        issuerURL := issuerURL.2
        centralAuthURL := centralAuthURL.2
        ssoNonce := ssoNonce.2
        ssoState := ssoState.2
        ssoClientID := ssoClientID.2
        ssoProvider := if 0 < ssoProvider.1 then ssoProvider.2 else defaultProvider }
    else pure { nc with
      authenticationURL := []
      authenticationExpiryTime := 0
      centralAuthURL := []
      ssoNonce := []
      ssoState := []
      ssoClientID := []
      issuerURL := []
      ssoProvider := [] }
  else pure nc

/-- The lists after the tags, and single sign-on. -/
def readRest (nc : ConfigFields) : Except Stop ConfigFields := do
  let nc ← readCoos C d nc
  let nc ← readSpecialists C d nc
  let nc ← readRoutes C d nc
  let nc ← readStaticIps C d nc
  let nc ← readRules C d nc
  let nc ← readDns C d nc
  readSso C d nc

/-- What comes before the lists. -/
def readFront : Except Stop ConfigFields := do
  let nc ← readIds C d nil
  let nc ← readScalars C d nc
  readCom C d nc

/-- What is read, one field after another. -/
def readAll : Except Stop ConfigFields := do
  let nc ← readFront C d
  let nc ← readCapabilities C d nc
  let nc ← readTags C d nc
  readRest C d nc

/-- `NetworkConfig::fromDictionary`: what is returned, and the fields.  The handler catches
whatever is thrown. -/
def fromDictionary : Except Stop (Bool × ConfigFields) :=
  match readAll C d with
  | .ok nc => .ok (true, nc)
  | .error (.rejected nc) => .ok (false, nc)
  | .error (.thrown nc) => .ok (false, nc)
  | .error stop => .error stop

end Reading

end ConfigFields

end ZGalaxy
