/-
ZGalaxy/IssuedLists.lean

What the controller copies from its records into the configuration it issues.

`_request` builds a `NetworkConfig` from the records of the network and of the member.  Texts and
lists of any length are copied into arrays of fixed sizes (`ConfigArray`), each by a loop of its own
with a limit of its own.  The functions here build the part before the addresses: the fields with
one value and the texts (`issueHeader`), and the rules, capabilities, tags, routes and specialists
(`issueLists`).  Each write is checked against the size of its array, and each access to JSON that
the library refuses throws.

Main results: `inside_issueHeader` and `inside_issueLists`, that all of this stays inside the arrays
for every network and every member.
-/
import ZGalaxy.ArrayBounds
import ZGalaxy.Bridging
import ZGalaxy.BoundedWrites
import ZGalaxy.RuleJson

namespace ZGalaxy

open BoundedWrites ByteList CString

/-! ### Arrays -/

/-- The arrays that `_request` writes to. -/
inductive ConfigArray
  | name
  | authenticationURL
  | centralAuthURL
  | issuerURL
  | ssoNonce
  | ssoState
  | ssoClientID
  | rules
  | capabilityRules
  | capabilities
  | tags
  | routes
  | specialists
  | staticIps
  | dnsDomain
  | dnsServers
  | certificatesOfOwnership
  | things
deriving DecidableEq

/-- How many elements there are in an array. -/
def ConfigArray.size : ConfigArray → ℕ
  | name => 128
  | authenticationURL => 2048
  | centralAuthURL => 2048
  | issuerURL => 2048
  | ssoNonce => 128
  | ssoState => 256
  | ssoClientID => 256
  | rules => maxNetworkRules
  | capabilityRules => maxCapabilityRules
  | capabilities => maxNetworkCapabilities
  | tags => maxNetworkTags
  | routes => maxNetworkRoutes
  | specialists => maxNetworkSpecialists
  | staticIps => maxAssignedAddresses
  | dnsDomain => 128
  | dnsServers => maxDnsServers
  | certificatesOfOwnership => maxCertificatesOfOwnership
  | things => CertificateOfOwnership.maxThings

/-- Building a configuration: the only exceptions are those of the JSON library. -/
abbrev Build (α : Type) := Except (Fault ConfigArray Unit) α

/-! ### Texts -/

/-- The bytes of a text. -/
def utf8Bytes (s : String) : Bytes := s.toByteArray.data.toList

/-- The loop of `Utils::scopy`, behind the bytes that are copied already. -/
def scopyFrom (array : ConfigArray) : Bytes → Bytes → Build Bytes
  | [], dest => do
      -- the terminator
      write ConfigArray.size array dest.length 1
      pure dest
  | c :: src, dest => do
      write ConfigArray.size array dest.length 1
      if c = 0 then pure dest
      -- at the end the terminator takes the place of the last byte
      else if dest.length + 1 = array.size then pure dest
      else scopyFrom array src (dest ++ [c])

/-- `Utils::scopy` into an array of the configuration. -/
def scopy (array : ConfigArray) (src : String) : Build Bytes := scopyFrom array (utf8Bytes src) []

/-- A text that is copied only if there is one. -/
def scopyGiven (array : ConfigArray) (src : String) : Build Bytes :=
  if src = "" then pure [] else scopy array src

/-! ### Fields -/

/-- `AuthInfo`, as far as it is copied. -/
structure AuthInfo where
  version : UInt64
  authenticationURL : String
  issuerURL : String
  centralAuthURL : String
  ssoNonce : String
  ssoState : String
  ssoClientID : String

/-- What `_request` builds a configuration from. -/
structure ConfigRequest where
  nwid : NetworkId
  now : Int64
  /-- who asks -/
  identity : Identity
  network : Json
  member : Json
  newMember : Bool
  info : AuthInfo
  activeBridges : List Address
  allocatedIps : Finset InetAddress
  rulesEngineRev : UInt64

/-- `(int64_t)j`, for a number. -/
def toInt64 : Json → Build Int64
  | .integer i => .ok i
  | .unsigned u => .ok u.toInt64
  | .real x => .ok (Int64.ofInt x.trunc)
  | _ => .error (.thrown ())

/-- The time that credentials may be apart: half an hour, or what the network says, between five
minutes and two hours. -/
def credentialTimeMaxDelta (network : Json) : Build Int64 := do
  let credentialtmd ←
    if network.contains "certificateTimeoutWindowSize" then
      toInt64 (network.get "certificateTimeoutWindowSize")
    else pure 1800000
  pure (max (min credentialtmd 7200000) 300000)

/-- `ZT_NETWORKCONFIG_FLAG_ENABLE_BROADCAST`. -/
def flagEnableBroadcast : UInt64 := 2

/-- `ZT_NETWORKCONFIG_FLAG_ENABLE_IPV6_NDP_EMULATION`. -/
def flagEnableIpv6NdpEmulation : UInt64 := 4

/-- `Address(Utils::hexStrToU64(s))`. -/
def hexAddress (s : String) : Address := Address.ofUInt64 (strtoull 16 (cText s)).toBitVec

/-- Where remote traces go, and their level. -/
def remoteTrace (network member : Json) : Address × UInt32 :=
  let rtt := jsonString (member.get "remoteTraceTarget") ""
  if rtt.utf8ByteSize = 10 then
    (hexAddress rtt, (jsonInt (member.get "remoteTraceLevel") 0).toUInt32)
  else
    let rtt := jsonString (network.get "remoteTraceTarget") ""
    (if rtt.utf8ByteSize = 10 then hexAddress rtt else 0,
      (jsonInt (network.get "remoteTraceLevel") 0).toUInt32)

/-- What single sign-on needs. -/
def issueAuth (info : AuthInfo) (member : Json) (nc : ConfigFields) : Build ConfigFields :=
  if info.version = 0 then do
    let url ← scopyGiven .authenticationURL info.authenticationURL
    pure { nc with
      authenticationExpiryTime := jsonInt (member.get "authenticationExpiryTime") 0
      authenticationURL := url }
  else if info.version = 1 then do
    let url ← scopyGiven .authenticationURL info.authenticationURL
    let central ← scopyGiven .centralAuthURL info.centralAuthURL
    let issuer ← scopyGiven .issuerURL info.issuerURL
    let nonce ← scopyGiven .ssoNonce info.ssoNonce
    let state ← scopyGiven .ssoState info.ssoState
    let client ← scopyGiven .ssoClientID info.ssoClientID
    pure { nc with
      authenticationExpiryTime := jsonInt (member.get "authenticationExpiryTime") 0
      authenticationURL := url
      centralAuthURL := central
      issuerURL := issuer
      ssoNonce := nonce
      ssoState := state
      ssoClientID := client }
  else pure nc

/-- The fields with one value, and the texts. -/
def issueHeader (q : ConfigRequest) : Build ConfigFields := do
  let credentialtmd ← credentialTimeMaxDelta q.network
  let name ← scopy .name (jsonString (q.network.get "name") "")
  issueAuth q.info q.member
    { ConfigFields.nil with
      networkId := UInt64.ofBitVec q.nwid
      type := if jsonBool (q.network.get "private") true then 0 else 1
      timestamp := q.now
      credentialTimeMaxDelta := credentialtmd
      revision := jsonInt (q.network.get "revision") 0
      issuedTo := q.identity.address
      flags := if jsonBool (q.network.get "enableBroadcast") true then flagEnableBroadcast else 0
      name := name
      mtu := max (min (jsonInt (q.network.get "mtu") 2800).toUInt32 10000) 1280
      multicastLimit := (jsonInt (q.network.get "multicastLimit") 32).toUInt32
      ssoEnabled := jsonBool (q.network.get "ssoEnabled") false
      ssoVersion := q.info.version
      remoteTraceTarget := (remoteTrace q.network q.member).1
      remoteTraceLevel := (remoteTrace q.network q.member).2 }

/-! ### Specialists -/

/-- `ZT_NETWORKCONFIG_SPECIALIST_TYPE_NETWORK_RELAY`. -/
def specialistTypeNetworkRelay : BitVec 64 := 0x0000100000000000

/-- `NetworkConfig::addSpecialist`: a flag more for an address that is there, or a new entry while
there is room. -/
def addSpecialist (specialists : List UInt64) (a : Address) (f : BitVec 64) :
    Build (List UInt64) :=
  let aint : UInt64 := UInt64.ofBitVec (a.setWidth 64)
  match specialists.findIdx? fun s => s &&& 0xffffffffff == aint with
  | some i => do
      write ConfigArray.size .specialists i 1
      pure (specialists.modify i fun s => s ||| UInt64.ofBitVec f)
  | none =>
      if specialists.length < maxNetworkSpecialists then
        push ConfigArray.size .specialists specialists (UInt64.ofBitVec f ||| aint)
      else pure specialists

/-- A relay of the network. -/
def addRelay (specialists : List UInt64) (relay : Json) : Build (List UInt64) :=
  let a := hexAddress (jsonString relay "0")
  if a.isReserved then pure specialists else addSpecialist specialists a specialistTypeNetworkRelay

/-! ### Rules and credentials -/

/-- `_parseRule`, into a slot. -/
def slotRule (pton : InetPton) (r : Json) : Except Unit (Option Rule) :=
  match parseRule pton r with
  | .rule rule => .ok (some rule)
  | .no => .ok none
  | .throws => .error ()

/-- A loop over rules. -/
def issueRules (pton : InetPton) (array : ConfigArray) (rules : Json) : Build (List Rule) :=
  fill ConfigArray.size array (slotRule pton) rules.elements []

/-- `OSUtils::jsonInt(j, 0ULL) & 0xffffffffULL`. -/
def id32 (j : Json) : UInt32 := (jsonInt j 0).toUInt32

/-- The capabilities of a network that are objects. -/
def capObjects (capabilities : Json) : List Json := capabilities.elements.filter Json.isObject

/-- `capsById.find`: of two capabilities with one id the later one counts. -/
def capById (capabilities : Json) (id : UInt32) : Option Json :=
  (capObjects capabilities).reverse.find? fun cap => id32 (cap.get "id") == id

/-- A new member gets the capabilities that are given by default. -/
def withDefault (newMember : Bool) (memberCapabilities : List Json) (cap : Json) : List Json :=
  let id := id32 (cap.get "id")
  if newMember && jsonBool (cap.get "default") false
      && !memberCapabilities.any (fun c => id32 c == id) then
    memberCapabilities ++ [.unsigned id.toUInt64]
  else memberCapabilities

/-- The capabilities of the member, with the default ones. -/
def memberCapabilities (q : ConfigRequest) : List Json :=
  (capObjects (q.network.get "capabilities")).foldl (withDefault q.newMember)
    (q.member.get "capabilities").elements

/-- `Capability::Capability`, for one holder. -/
def Capability.ofRules (id : UInt32) (nwid : NetworkId) (ts : Int64) (rules : List Rule) :
    Capability where
  nwid := nwid
  ts := ts
  id := id
  maxCustodyChainLength := 1
  rules := rules.take maxCapabilityRules
  custody _ := ⟨0, 0, []⟩
  rules_le := List.length_take_le _ _

/-- `Tag::sign`. -/
def Tag.sign (t : Tag) (signer : Address) (signature : Bytes → Bytes) : Tag :=
  let signed := { t with signedBy := signer }
  { signed with signature := signature signed.forSign }

section Credentials

variable (pton : InetPton) (signature : Bytes → Bytes) (q : ConfigRequest)

/-- A capability for the member.  The rules are those of the network, and one that cannot be signed
leaves its slot to the next. -/
def issueCapability (capId : UInt32) (cap : Json) (issued : List Capability) :
    Build (List Capability) := do
  let capr ← issueRules pton .capabilityRules (cap.get "rules")
  write ConfigArray.size .capabilities issued.length 1
  let signed := (Capability.ofRules capId q.nwid q.now capr).sign
    (Address.controllerFor q.nwid) signature q.identity.address
  pure (signed.elim issued fun c => issued ++ [c])

/-- The loop over the capabilities of the member. -/
def issueCapabilities : List Json → List Capability → Build (List Capability)
  | [], issued => pure issued
  | c :: cs, issued =>
      match capById (q.network.get "capabilities") (id32 c) with
      | none => issueCapabilities cs issued
      | some cap => do
          let issued ← issueCapability pton signature q (id32 c) cap issued
          if maxNetworkCapabilities ≤ issued.length then pure issued
          else issueCapabilities cs issued

/-- The order of `memberTagsById`. -/
def idLt (a b : UInt32) : Bool := a < b

/-- A tag of the member, which is a pair. -/
def memberTag (tags : List (UInt32 × UInt32)) (t : Json) : List (UInt32 × UInt32) :=
  if t.isArray && t.elements.length == 2 then
    SortedMap.set idLt (id32 (t.elements.getD 0 .null)) (id32 (t.elements.getD 1 .null)) tags
  else tags

/-- `j.push_back(x)`, for an array, or for null, which becomes one. -/
def pushBack (j x : Json) : Build Json :=
  if j.isArray || j.isNull then .ok (.array (j.elements ++ [x])) else .error (.thrown ())

/-- A tag of the network, whose default is for members that do not have it. -/
def defaultTag (s : List (UInt32 × UInt32) × Json) (t : Json) :
    Build (List (UInt32 × UInt32) × Json) :=
  let id := id32 (t.get "id")
  let dfl := t.get "default"
  if t.isObject && dfl.isNumber && (SortedMap.get id s.1).isNone then do
    let memberTags ← pushBack s.2 (.array [.unsigned id.toUInt64, dfl])
    pure (SortedMap.set idLt id (id32 dfl) s.1, memberTags)
  else pure s

/-- The loop over the tags, in the order of their ids. -/
def issueTags : List (UInt32 × UInt32) → List Tag → Build (List Tag)
  | [], issued => pure issued
  | t :: ts, issued =>
      if maxNetworkTags ≤ issued.length then pure issued
      else do
        let tag : Tag := ⟨t.1, t.2, q.nwid, q.now, q.identity.address, 0, []⟩
        let issued ← push ConfigArray.size .tags issued
          (tag.sign (Address.controllerFor q.nwid) signature)
        issueTags ts issued

/-- What a node with a rules engine gets, and the record of the member with what is new in it. -/
def issueCredentials (nc : ConfigFields) : Build (ConfigFields × Json) := do
  let rules ← issueRules pton .rules (q.network.get "rules")
  let caps := memberCapabilities q
  let capabilities ← issueCapabilities pton signature q caps []
  let memberTags := q.member.get "tags"
  let byId ← (q.network.get "tags").elements.foldlM defaultTag
    (memberTags.elements.foldl memberTag [], memberTags)
  let tags ← issueTags signature q byId.1 []
  pure ({ nc with rules := rules, capabilities := capabilities, tags := tags },
    (q.member.set "capabilities" (.array caps)).set "tags" byId.2)

/-- An old node gets a rule that allows everything. -/
def issueRulesEngine (nc : ConfigFields) : Build (ConfigFields × Json) :=
  if q.rulesEngineRev ≤ 0 then do
    write ConfigArray.size .rules 0 1
    pure ({ nc with rules := [⟨false, false, .action .accept⟩] }, q.member)
  else issueCredentials pton signature q nc

end Credentials

/-! ### Routes -/

/-- The addresses are of one family. -/
def InetAddress.sameFamily : InetAddress → InetAddress → Bool
  | .v4 _ _, .v4 _ _ => true
  | .v6 _ _, .v6 _ _ => true
  | .nil, .nil => true
  | _, _ => false

/-- The loop over the routes of the network.  A gateway of the other family is left out. -/
def issueRoutes (pton : InetPton) : List Json → List VirtualNetworkRoute →
    Build (List VirtualNetworkRoute)
  | [], routes => pure routes
  | route :: rest, routes =>
      if maxNetworkRoutes ≤ routes.length then pure routes
      else if !(route.isObject || route.isNull) then .error (.thrown ())
      else
        match (route.get "target").text with
        | none => issueRoutes pton rest routes
        | some target =>
            let t := InetAddress.ofText pton target
            let v := ((route.get "via").text.map (InetAddress.ofText pton)).getD .nil
            if t.isSet then do
              let routes ← push ConfigArray.size .routes routes
                ⟨t, if v.sameFamily t then v else .nil, 0, 0⟩
              issueRoutes pton rest routes
            else issueRoutes pton rest routes

/-- The lists, and the record of the member with what is new in it. -/
def issueLists (pton : InetPton) (signature : Bytes → Bytes) (q : ConfigRequest)
    (nc : ConfigFields) : Build (ConfigFields × Json) := do
  let bridges ← q.activeBridges.foldlM (fun s ab =>
    addSpecialist s ab specialistTypeActiveBridge) []
  let issued ← issueRulesEngine pton signature q nc
  let routes ← issueRoutes pton (q.network.get "routes").elements []
  let specialists ← (q.network.get "relays").elements.foldlM addRelay bridges
  pure ({ issued.1 with specialists := specialists, routes := routes }, issued.2)

/-! ### Staying inside the arrays -/

/-- Every text ends inside its array, and no count is above the length of its array. -/
structure ConfigFields.Fits (nc : ConfigFields) : Prop where
  name : nc.name.length < ConfigArray.name.size
  authenticationURL : nc.authenticationURL.length < ConfigArray.authenticationURL.size
  centralAuthURL : nc.centralAuthURL.length < ConfigArray.centralAuthURL.size
  issuerURL : nc.issuerURL.length < ConfigArray.issuerURL.size
  ssoNonce : nc.ssoNonce.length < ConfigArray.ssoNonce.size
  ssoState : nc.ssoState.length < ConfigArray.ssoState.size
  ssoClientID : nc.ssoClientID.length < ConfigArray.ssoClientID.size
  counts : nc.counts.Within

theorem ConfigArray.size_pos (array : ConfigArray) : 0 < array.size := by
  cases array <;> decide

theorem ConfigFields.fits_nil : ConfigFields.nil.Fits where
  name := ConfigArray.size_pos _
  authenticationURL := ConfigArray.size_pos _
  centralAuthURL := ConfigArray.size_pos _
  issuerURL := ConfigArray.size_pos _
  ssoNonce := ConfigArray.size_pos _
  ssoState := ConfigArray.size_pos _
  ssoClientID := ConfigArray.size_pos _
  counts := ⟨Nat.zero_le _, Nat.zero_le _, Nat.zero_le _, Nat.zero_le _, Nat.zero_le _,
    Nat.zero_le _, Nat.zero_le _, Nat.zero_le _⟩

section Texts

variable {array : ConfigArray}

/-- Copying stops in time. -/
theorem inside_scopyFrom (src : Bytes) {dest : Bytes} (h : dest.length < array.size) :
    Inside (fun t => t.length < array.size) (scopyFrom array src dest) := by
  induction src generalizing dest with
  | nil => exact (inside_write_iff.mpr h).bind fun _ _ => h
  | cons c src ih =>
      refine (inside_write_iff.mpr h).bind fun _ _ => ?_
      by_cases hc : c = 0
      · rw [if_pos hc]
        exact h
      · rw [if_neg hc]
        by_cases hlast : dest.length + 1 = array.size
        · rw [if_pos hlast]
          exact h
        · rw [if_neg hlast]
          refine ih ?_
          rw [List.length_append, List.length_singleton]
          omega

theorem inside_scopy (src : String) :
    Inside (fun t => t.length < array.size) (scopy array src) :=
  inside_scopyFrom _ array.size_pos

theorem inside_scopyGiven (src : String) :
    Inside (fun t => t.length < array.size) (scopyGiven array src) := by
  unfold scopyGiven
  by_cases h : src = ""
  · rw [if_pos h]
    exact array.size_pos
  · rw [if_neg h]
    exact inside_scopy src

end Texts

theorem inside_toInt64 (j : Json) : Inside (fun _ => True) (toInt64 j) := by
  cases j <;> trivial

theorem inside_credentialTimeMaxDelta (network : Json) :
    Inside (fun _ => True) (credentialTimeMaxDelta network) := by
  unfold credentialTimeMaxDelta
  by_cases h : network.contains "certificateTimeoutWindowSize" = true
  · rw [if_pos h]
    exact (inside_toInt64 _).bind fun _ _ => trivial
  · rw [if_neg h]
    trivial

theorem inside_issueAuth (info : AuthInfo) (member : Json) {nc : ConfigFields} (h : nc.Fits) :
    Inside ConfigFields.Fits (issueAuth info member nc) := by
  unfold issueAuth
  by_cases h0 : info.version = 0
  · rw [if_pos h0]
    refine (inside_scopyGiven _).bind fun url hurl => ?_
    exact { h with authenticationURL := hurl }
  rw [if_neg h0]
  by_cases h1 : info.version = 1
  · rw [if_pos h1]
    refine (inside_scopyGiven _).bind fun url hurl => ?_
    refine (inside_scopyGiven _).bind fun central hcentral => ?_
    refine (inside_scopyGiven _).bind fun issuer hissuer => ?_
    refine (inside_scopyGiven _).bind fun nonce hnonce => ?_
    refine (inside_scopyGiven _).bind fun state hstate => ?_
    refine (inside_scopyGiven _).bind fun client hclient => ?_
    exact
      { h with
        authenticationURL := hurl
        centralAuthURL := hcentral
        issuerURL := hissuer
        ssoNonce := hnonce
        ssoState := hstate
        ssoClientID := hclient }
  · rw [if_neg h1]
    exact h

/-- **The header** stays inside the arrays. -/
theorem inside_issueHeader (q : ConfigRequest) : Inside ConfigFields.Fits (issueHeader q) := by
  refine (inside_credentialTimeMaxDelta _).bind fun _ _ => ?_
  refine (inside_scopy _).bind fun name hname => ?_
  refine inside_issueAuth _ _ ?_
  exact { ConfigFields.fits_nil with name := hname }

section Lists

variable {pton : InetPton} {signature : Bytes → Bytes} {q : ConfigRequest}

/-- Pushing to an array of a known size. -/
theorem inside_pushTo {α : Type} {array : ConfigArray} {max : ℕ} (hmax : array.size = max)
    {xs : List α} (h : xs.length < max) (x : α) :
    Inside (fun ys => ys.length ≤ max) (push ConfigArray.size array xs x : Build (List α)) := by
  subst hmax
  exact inside_push h x

theorem inside_addSpecialist {specialists : List UInt64}
    (h : specialists.length ≤ maxNetworkSpecialists) (a : Address) (f : BitVec 64) :
    Inside (fun s => s.length ≤ maxNetworkSpecialists) (addSpecialist specialists a f) := by
  unfold addSpecialist
  extract_lets aint
  rcases hfind : specialists.findIdx? fun s => s &&& 0xffffffffff == aint with _ | i
  · dsimp only
    by_cases hroom : specialists.length < maxNetworkSpecialists
    · rw [if_pos hroom]
      exact inside_pushTo rfl hroom _
    · rw [if_neg hroom]
      exact inside_pure h
  · have hi : i < specialists.length := (List.findIdx?_eq_some_iff_getElem.mp hfind).1
    refine (inside_write_iff.mpr ?_).bind fun _ _ => ?_
    · exact hi.trans_le h
    · show (specialists.modify i _).length ≤ _
      rw [List.length_modify]
      exact h

/-- A relay that is added is a specialist, or its address is reserved. -/
theorem inside_addRelays (relays : List Json) {specialists : List UInt64}
    (h : specialists.length ≤ maxNetworkSpecialists) :
    Inside (fun s => s.length ≤ maxNetworkSpecialists) (relays.foldlM addRelay specialists) := by
  refine inside_foldlM (P := fun s : List UInt64 => s.length ≤ maxNetworkSpecialists)
    (fun s relay hs => ?_) h relays
  unfold addRelay
  extract_lets a
  generalize a = a
  by_cases hreserved : a.isReserved = true
  · rw [if_pos hreserved]
    exact inside_pure hs
  · rw [if_neg hreserved]
    exact inside_addSpecialist hs _ _

theorem inside_issueRules (array : ConfigArray) (rules : Json) :
    Inside (fun rs => rs.length ≤ array.size) (issueRules pton array rules) :=
  inside_fill _ (Nat.zero_le _)

theorem inside_issueCapability {issued : List Capability}
    (h : issued.length < maxNetworkCapabilities) (capId : UInt32) (cap : Json) :
    Inside (fun cs => cs.length ≤ maxNetworkCapabilities)
      (issueCapability pton signature q capId cap issued) := by
  refine (inside_issueRules .capabilityRules _).bind fun capr _ => ?_
  refine (inside_write_iff.mpr h).bind fun _ _ => ?_
  rcases (Capability.ofRules capId q.nwid q.now capr).sign (Address.controllerFor q.nwid) signature
    q.identity.address with _ | c
  · exact h.le
  · show (issued ++ [c]).length ≤ _
    rw [List.length_append, List.length_singleton]
    exact h

/-- The loop over the capabilities asks for room behind each of them. -/
theorem inside_issueCapabilities (cs : List Json) {issued : List Capability}
    (h : issued.length < maxNetworkCapabilities) :
    Inside (fun cs => cs.length ≤ maxNetworkCapabilities)
      (issueCapabilities pton signature q cs issued) := by
  induction cs generalizing issued with
  | nil => exact h.le
  | cons c cs ih =>
      unfold issueCapabilities
      rcases capById (q.network.get "capabilities") (id32 c) with _ | cap
      · exact ih h
      · refine (inside_issueCapability h _ cap).bind fun issued hissued => ?_
        by_cases hfull : maxNetworkCapabilities ≤ issued.length
        · rw [if_pos hfull]
          exact hissued
        · rw [if_neg hfull]
          exact ih (Nat.lt_of_not_le hfull)

theorem inside_pushBack (j x : Json) : Inside (fun _ => True) (pushBack j x) := by
  unfold pushBack
  split_ifs
  · trivial
  · trivial

theorem inside_defaultTag (s : List (UInt32 × UInt32) × Json) (t : Json) :
    Inside (fun _ => True) (defaultTag s t) := by
  unfold defaultTag
  extract_lets id dfl
  split_ifs
  · exact (inside_pushBack _ _).bind fun _ _ => trivial
  · trivial

theorem inside_issueTags (ts : List (UInt32 × UInt32)) {issued : List Tag}
    (h : issued.length ≤ maxNetworkTags) :
    Inside (fun ts => ts.length ≤ maxNetworkTags) (issueTags signature q ts issued) := by
  induction ts generalizing issued with
  | nil => exact h
  | cons t ts ih =>
      unfold issueTags
      by_cases hfull : maxNetworkTags ≤ issued.length
      · rw [if_pos hfull]
        exact h
      · rw [if_neg hfull]
        have hroom : issued.length < maxNetworkTags := Nat.lt_of_not_le hfull
        exact (inside_pushTo rfl hroom _).bind fun issued hissued => ih hissued

theorem inside_issueCredentials {nc : ConfigFields} (h : nc.Fits) :
    Inside (fun r => r.1.Fits) (issueCredentials pton signature q nc) := by
  refine (inside_issueRules .rules _).bind fun rules hrules => ?_
  refine (inside_issueCapabilities _ (by decide)).bind fun capabilities hcapabilities => ?_
  refine (inside_foldlM (P := fun _ => True) (fun s t _ => inside_defaultTag s t) trivial _).bind
    fun byId _ => ?_
  refine (inside_issueTags _ (Nat.zero_le _)).bind fun tags htags => ?_
  exact
    { h with
      counts :=
        { h.counts with
          rules := hrules
          capabilities := hcapabilities
          tags := htags } }

theorem inside_issueRulesEngine {nc : ConfigFields} (h : nc.Fits) :
    Inside (fun r => r.1.Fits) (issueRulesEngine pton signature q nc) := by
  unfold issueRulesEngine
  split_ifs
  · refine (inside_write_iff.mpr (by decide)).bind fun _ _ => ?_
    exact { h with counts := { h.counts with rules := Nat.succ_le_succ (Nat.zero_le _) } }
  · exact inside_issueCredentials h

theorem inside_issueRoutes (rest : List Json) {routes : List VirtualNetworkRoute}
    (h : routes.length ≤ maxNetworkRoutes) :
    Inside (fun rs => rs.length ≤ maxNetworkRoutes) (issueRoutes pton rest routes) := by
  -- on the routes of the record, with those that were issued
  induction rest generalizing routes with
  | nil => exact h
  | cons route rest ih =>
      unfold issueRoutes
      by_cases hfull : maxNetworkRoutes ≤ routes.length
      · rw [if_pos hfull]
        exact h
      rw [if_neg hfull]
      split_ifs with hkind
      · trivial
      · rcases (route.get "target").text with _ | target
        · exact ih h
        · dsimp only
          have hroom : routes.length < maxNetworkRoutes := Nat.lt_of_not_le hfull
          by_cases hset : (InetAddress.ofText pton target).isSet = true
          · rw [if_pos hset]
            exact (inside_pushTo rfl hroom _).bind fun routes hroutes => ih hroutes
          · rw [if_neg hset]
            exact ih h

/-- **The lists** stay inside the arrays. -/
theorem inside_issueLists {nc : ConfigFields} (h : nc.Fits) :
    Inside (fun r => r.1.Fits) (issueLists pton signature q nc) := by
  refine (inside_foldlM (fun s ab hs => inside_addSpecialist hs ab _) (Nat.zero_le _) _).bind
    fun bridges hbridges => ?_
  refine (inside_issueRulesEngine h).bind fun issued hissued => ?_
  refine (inside_issueRoutes _ (Nat.zero_le _)).bind fun routes hroutes => ?_
  refine (inside_addRelays _ hbridges).bind fun specialists hspecialists => ?_
  exact
    { hissued with
      counts :=
        { hissued.counts with
          specialists := hspecialists
          routes := hroutes } }

end Lists

end ZGalaxy
