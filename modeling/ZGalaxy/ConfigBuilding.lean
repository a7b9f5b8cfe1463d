/-
ZGalaxy/ConfigBuilding.lean

The configuration that the controller builds for a member.

After the lists and the addresses `_request` copies the settings for name resolution, and issues a
certificate of ownership for the addresses.  The domain is copied with `memcpy`, as many bytes as it
has.  The certificate has room for 16 things, and leaves out silently what comes after.

Main results: `issueConfig_inside_iff`, that building stays inside the arrays exactly when the
domain fits; and `issueConfig_owned_iff`, that all addresses issued are owned exactly when none
after the sixteenth is a new one.
-/
import ZGalaxy.AddressAssignment

namespace ZGalaxy

open BoundedWrites ByteList

/-! ### The rest of the configuration -/

/-- The loop over the servers. -/
def issueServers (pton : InetPton) : List Json → List InetAddress → Build (List InetAddress)
  | [], servers => pure servers
  | addr :: rest, servers =>
      if servers.length < maxDnsServers then do
        let servers ← push ConfigArray.size .dnsServers servers
          (InetAddress.ofText pton (jsonString addr ""))
        issueServers pton rest servers
      else pure servers

/-- The domain for name resolution. -/
def dnsDomain (network : Json) : String := jsonString ((network.get "dns").get "domain") ""

/-- The settings for name resolution. -/
def issueDns (pton : InetPton) (network : Json) : Build VirtualNetworkDNS :=
  if (network.get "dns").isObject then do
    -- `memcpy` asks for no room
    write ConfigArray.size .dnsDomain 0 (dnsDomain network).utf8ByteSize
    let servers ← issueServers pton ((network.get "dns").get "servers").elements []
    pure ⟨utf8Bytes (dnsDomain network), servers⟩
  else pure ⟨[], []⟩

/-- What a certificate says of an address. -/
def thingOf : InetAddress → Option Thing
  | .nil => none
  | .v4 ip _ => some ⟨2, ip ++ (0 : BitVec 96)⟩
  | .v6 ip _ => some ⟨3, ip⟩

/-- `CertificateOfOwnership::addThing`. -/
def addThing (things : List Thing) (ip : InetAddress) : Build (List Thing) :=
  if CertificateOfOwnership.maxThings ≤ things.length then pure things
  else (thingOf ip).elim (pure things) (push ConfigArray.size .things things)

/-- `CertificateOfOwnership::sign`. -/
def CertificateOfOwnership.sign (coo : CertificateOfOwnership) (signer : Address)
    (signature : Bytes → Bytes) : CertificateOfOwnership :=
  let signed := { coo with signedBy := signer }
  { signed with signature := signature signed.forSign }

/-- `CertificateOfMembership::CertificateOfMembership`. -/
def CertificateOfMembership.ofMember (ecc : Ecc) (timestamp timestampMaxDelta : Int64)
    (nwid : NetworkId) (issuedTo : Identity) : CertificateOfMembership where
  qualifiers :=
    [⟨0, timestamp.toUInt64, timestampMaxDelta.toUInt64⟩, ⟨1, UInt64.ofBitVec nwid, 0⟩,
      ⟨2, UInt64.ofBitVec (issuedTo.address.setWidth 64), 0xffffffffffffffff⟩]
    ++ (List.range 4).map fun i =>
      ⟨UInt64.ofNat (i + 3), publicKeyHash ecc issuedTo i, 0xffffffffffffffff⟩
  signedBy := 0
  signature := []

/-- `CertificateOfMembership::sign`. -/
def CertificateOfMembership.sign (com : CertificateOfMembership) (signer : Address)
    (signature : Bytes → Bytes) : CertificateOfMembership :=
  { com with signedBy := signer, signature := signature com.forSign }

/-- `DB::cleanMember`. -/
def cleanMember (member : Json) : Json :=
  ["clock", "physicalAddr", "recentLog", "lastModified", "lastRequestMetaData",
    "authenticationURL", "authenticationClientID"].foldl Json.erase member

section Building

variable (H : Host) (ecc : Ecc) (signature : Bytes → Bytes)
  (random : ℕ → ℕ → BitVec 64 × BitVec 64) (q : ConfigRequest)

/-- What the addresses depend on. -/
def ConfigRequest.addresses (routes : List VirtualNetworkRoute) : AddressRequest where
  nwid := q.nwid
  identity := q.identity.address
  network := q.network
  routes := routes
  allocatedIps := q.allocatedIps
  random := random

/-- The certificate of ownership for the addresses, if there are any. -/
def issueOwnership (staticIps : List InetAddress) : Build (List CertificateOfOwnership) :=
  if staticIps.isEmpty then pure []
  else do
    write ConfigArray.size .certificatesOfOwnership 0 1
    let things ← staticIps.foldlM addThing []
    let coo : CertificateOfOwnership := ⟨q.nwid, q.now, 0, 1, things, q.identity.address, 0, []⟩
    pure [coo.sign (Address.controllerFor q.nwid) signature]

/-- The configuration up to the addresses, and the record of the member. -/
def issueThroughAddresses : Build (ConfigFields × Json) := do
  let nc ← issueHeader q
  let lists ← issueLists H.text.toInetPton signature q nc
  let addresses ← issueAddresses H (q.addresses random lists.1.routes) lists.2 lists.1.flags
  pure ({ lists.1 with staticIps := addresses.1, flags := addresses.2.1 }, addresses.2.2)

/-- The certificates of ownership and of membership. -/
def issueCertificates (nc : ConfigFields) : Build ConfigFields := do
  let coos ← issueOwnership signature q nc.staticIps
  let com := CertificateOfMembership.ofMember ecc q.now nc.credentialTimeMaxDelta q.nwid q.identity
  pure { nc with
    certificatesOfOwnership := coos
    com := com.sign (Address.controllerFor q.nwid) signature }

/-- The configuration that `_request` sends, and the record of the member that it saves. -/
def issueConfig : Build (ConfigFields × Json) := do
  let issued ← issueThroughAddresses H signature random q
  let dns ← issueDns H.text.toInetPton q.network
  let nc ← issueCertificates ecc signature q { issued.1 with dns := dns }
  pure (nc, cleanMember issued.2)

end Building

/-! ### Inside the arrays -/

section Bounds

variable {pton : InetPton}

theorem inside_issueServers (rest : List Json) {servers : List InetAddress}
    (h : servers.length ≤ maxDnsServers) :
    Inside (fun s => s.length ≤ maxDnsServers) (issueServers pton rest servers) := by
  induction rest generalizing servers with
  | nil => exact h
  | cons addr rest ih =>
      unfold issueServers
      by_cases hroom : servers.length < maxDnsServers
      · rw [if_pos hroom]
        exact (inside_pushTo rfl hroom _).bind fun servers hservers => ih hservers
      · rw [if_neg hroom]
        exact h

/-- The domain fits into its array, if it is copied. -/
def DomainFits (network : Json) : Prop :=
  (network.get "dns").isObject = true → (dnsDomain network).utf8ByteSize ≤ ConfigArray.dnsDomain.size

/-- What is copied with `memcpy` fits if nothing is written outside an array. -/
theorem domainFits_of_inside {network : Json} {P : VirtualNetworkDNS → Prop}
    (h : Inside P (issueDns pton network)) : DomainFits network := by
  intro hdns
  unfold issueDns at h
  rw [if_pos hdns] at h
  have hwrite := inside_write_iff.mp h.of_bind
  rwa [Nat.zero_add] at hwrite

theorem inside_issueDns {network : Json} (h : DomainFits network) :
    Inside (fun dns => dns.servers.length ≤ maxDnsServers) (issueDns pton network) := by
  unfold issueDns
  by_cases hdns : (network.get "dns").isObject = true
  · rw [if_pos hdns]
    refine (inside_write_iff.mpr ?_).bind fun _ _ => ?_
    · rw [Nat.zero_add]
      exact h hdns
    · exact (inside_issueServers _ (Nat.zero_le _)).bind fun _ hservers => hservers
  · rw [if_neg hdns]
    exact Nat.zero_le _

theorem inside_addThing {things : List Thing} (h : things.length ≤ CertificateOfOwnership.maxThings)
    (ip : InetAddress) :
    Inside (fun ts => ts.length ≤ CertificateOfOwnership.maxThings) (addThing things ip) := by
  unfold addThing
  by_cases hfull : CertificateOfOwnership.maxThings ≤ things.length
  · rw [if_pos hfull]
    exact h
  · rw [if_neg hfull]
    rcases thingOf ip with _ | thing
    · exact h
    · have hroom : things.length < CertificateOfOwnership.maxThings := Nat.lt_of_not_le hfull
      exact inside_pushTo rfl hroom thing

theorem inside_issueOwnership (signature : Bytes → Bytes) (q : ConfigRequest)
    (staticIps : List InetAddress) :
    Inside (fun coos => coos.length ≤ maxCertificatesOfOwnership)
      (issueOwnership signature q staticIps) := by
  unfold issueOwnership
  split_ifs
  · exact Nat.zero_le _
  · refine (inside_write_iff.mpr (by decide)).bind fun _ _ => ?_
    refine (inside_foldlM (fun s ip hs => inside_addThing hs ip) (Nat.zero_le _) _).bind
      fun things _ => ?_
    exact Nat.succ_le_succ (Nat.zero_le _)

variable {H : Host} {ecc : Ecc} {signature : Bytes → Bytes}
  {random : ℕ → ℕ → BitVec 64 × BitVec 64} {q : ConfigRequest}

theorem inside_issueCertificates {nc : ConfigFields} (h : nc.Fits) :
    Inside ConfigFields.Fits (issueCertificates ecc signature q nc) := by
  refine (inside_issueOwnership signature q nc.staticIps).bind fun coos hcoos => ?_
  exact { h with counts := { h.counts with certificatesOfOwnership := hcoos } }

/-- **Up to the addresses** nothing is written outside an array. -/
theorem inside_issueThroughAddresses :
    Inside (fun r => r.1.Fits) (issueThroughAddresses H signature random q) := by
  refine (inside_issueHeader q).bind fun nc hnc => ?_
  refine (inside_issueLists hnc).bind fun lists hlists => ?_
  rw [issueAddresses_eq]
  exact
    { hlists with
      counts := { hlists.counts with staticIps := List.length_take_le _ _ } }

/-- Where building comes to the domain, it fits if nothing is written outside an array. -/
theorem domainFits_of_built {P : ConfigFields × Json → Prop} {issued : ConfigFields × Json}
    (hissued : issueThroughAddresses H signature random q = .ok issued)
    (h : Inside P (issueConfig H ecc signature random q)) : DomainFits q.network := by
  rw [issueConfig, hissued] at h
  change Inside P (issueDns H.text.toInetPton q.network >>= _) at h
  exact domainFits_of_inside h.of_bind

/-- **Building stays inside the arrays** and leaves no count above the length of its array exactly
if the domain fits, or building does not come to it. -/
theorem issueConfig_inside_iff (H : Host) (ecc : Ecc) (signature : Bytes → Bytes)
    (random : ℕ → ℕ → BitVec 64 × BitVec 64) (q : ConfigRequest) :
    Inside (fun r => r.1.Fits) (issueConfig H ecc signature random q) ↔
      DomainFits q.network ∨
        issueThroughAddresses H signature random q = .error (.thrown ()) := by
  have hthrough : Inside (fun r => r.1.Fits) (issueThroughAddresses H signature random q) :=
    inside_issueThroughAddresses
  rcases hissued : issueThroughAddresses H signature random q with (a | _) | issued
  · rw [hissued] at hthrough
    exact hthrough.elim
  · refine iff_of_true ?_ (Or.inr rfl)
    rw [issueConfig, hissued]
    trivial
  · have hfits : issued.1.Fits := hthrough.of_ok hissued
    constructor
    · exact fun h => Or.inl (domainFits_of_built hissued h)
    · rintro (hdomain | hthrown)
      · rw [issueConfig, hissued]
        refine (inside_issueDns hdomain).bind fun dns hdns => ?_
        refine (inside_issueCertificates ?_).bind fun nc hnc => hnc
        exact { hfits with counts := { hfits.counts with servers := hdns } }
      · cases hthrown

end Bounds

/-! ### Requests to try -/

theorem agrees_containsAddress (net addr : InetAddress) (_ : net.HasNetmask) :
    InetAddress.containsAddress net addr = InetAddress.containsAddress net addr := rfl

theorem family_containsAddress (net addr : InetAddress) (h : net.containsAddress addr = true) :
    InetAddress.SameFamily net addr := by
  cases net <;> cases addr <;> trivial

/-- A platform with addresses in dotted decimal. -/
def dottedHost : Host where
  text := dotted
  lawful := dotted_lawful
  containment := ⟨InetAddress.containsAddress, agrees_containsAddress⟩
  family := family_containsAddress
  wildMask _ := 0

/-- Signatures of no length, which nobody accepts. -/
def unsigned : Ecc := ⟨fun _ _ _ => false, fun _ => []⟩

/-- A request of a node without a rules engine. -/
def oldNodeRequest (network member : Json) : ConfigRequest where
  nwid := 0x8056c2e21c000001
  now := 0
  identity := ⟨0x1234567890, []⟩
  network := network
  member := member
  newMember := true
  info := ⟨0, "", "", "", "", "", ""⟩
  activeBridges := []
  allocatedIps := ∅
  rulesEngineRev := 0

/-- A network whose domain has 129 characters. -/
def longDomain : Json :=
  .object [("dns", .object [("domain", .string (String.ofList (List.replicate 129 'a')))])]

/-- The domain is copied over the end of its array. -/
theorem domain_outside :
    ¬∀ (H : Host) (ecc : Ecc) (signature : Bytes → Bytes)
      (random : ℕ → ℕ → BitVec 64 × BitVec 64) (q : ConfigRequest),
      Inside (fun r => r.1.Fits) (issueConfig H ecc signature random q) := by
  intro h
  have hthrough : ∃ issued, issueThroughAddresses dottedHost (fun _ => []) (fun _ _ => (0, 0))
      (oldNodeRequest longDomain (.object [])) = .ok issued := ⟨_, rfl⟩
  obtain ⟨issued, hissued⟩ := hthrough
  have hnetwork : (oldNodeRequest longDomain (.object [])).network = longDomain := rfl
  generalize oldNodeRequest longDomain (.object []) = q at hissued hnetwork
  have hfits : DomainFits longDomain := hnetwork ▸ domainFits_of_built hissued (h _ unsigned _ _ q)
  have hshort := hfits rfl
  revert hshort
  decide +kernel

/-! ### Ownership -/

/-- The things of addresses fill the certificate up. -/
theorem foldlM_addThing (ips xs : List InetAddress) :
    ips.foldlM addThing ((xs.filterMap thingOf).take CertificateOfOwnership.maxThings) =
      .ok (((xs ++ ips).filterMap thingOf).take CertificateOfOwnership.maxThings) := by
  -- on the addresses to come: those that were added go to `xs`
  induction ips generalizing xs with
  | nil =>
      rw [List.append_nil]
      rfl
  | cons ip ips ih =>
      have hturn : addThing ((xs.filterMap thingOf).take CertificateOfOwnership.maxThings) ip =
          .ok (((xs ++ [ip]).filterMap thingOf).take CertificateOfOwnership.maxThings) := by
        unfold addThing
        rw [List.filterMap_append, List.filterMap_cons, List.filterMap_nil]
        by_cases hfull : CertificateOfOwnership.maxThings ≤ (xs.filterMap thingOf).length
        · rw [if_pos (by rw [List.length_take_of_le hfull]), List.take_append_of_le_length hfull]
          rfl
        · have hroom : (xs.filterMap thingOf).length < CertificateOfOwnership.maxThings :=
            Nat.lt_of_not_le hfull
          rw [List.take_of_length_le hroom.le, if_neg hfull]
          rcases thingOf ip with _ | thing
          · rw [List.append_nil, List.take_of_length_le hroom.le]
            rfl
          · have hlength : (xs.filterMap thingOf ++ [thing]).length ≤
                CertificateOfOwnership.maxThings := by
              rw [List.length_append, List.length_singleton]
              exact hroom
            rw [List.take_of_length_le hlength]
            exact push_ok (by exact hroom) thing
      rw [List.foldlM_cons, hturn]
      show ips.foldlM addThing _ = _
      rw [ih, List.append_assoc, List.singleton_append]

/-- The certificate for some addresses. -/
def ownership (signature : Bytes → Bytes) (q : ConfigRequest) (staticIps : List InetAddress) :
    CertificateOfOwnership :=
  CertificateOfOwnership.sign
    ⟨q.nwid, q.now, 0, 1, (staticIps.filterMap thingOf).take CertificateOfOwnership.maxThings,
      q.identity.address, 0, []⟩
    (Address.controllerFor q.nwid) signature

theorem issueOwnership_eq (signature : Bytes → Bytes) (q : ConfigRequest)
    (staticIps : List InetAddress) :
    issueOwnership signature q staticIps =
      .ok (if staticIps.isEmpty then [] else [ownership signature q staticIps]) := by
  unfold issueOwnership
  by_cases hempty : staticIps.isEmpty = true
  · rw [if_pos hempty, if_pos hempty]
    rfl
  · have hthings : staticIps.foldlM addThing [] =
        .ok ((staticIps.filterMap thingOf).take CertificateOfOwnership.maxThings) :=
      foldlM_addThing staticIps []
    rw [if_neg hempty, if_neg hempty, write_ok (by decide)]
    show staticIps.foldlM addThing [] >>= _ = _
    rw [hthings]
    rfl

/-- The thing is one of the address. -/
def thingOwns (ip : InetAddress) (thing : Thing) : Bool :=
  match ip with
  | .nil => false
  | .v4 ip _ => thing.type == 2 && (thing.value >>> (128 - 32)).setWidth 32 == ip
  | .v6 ip _ => thing.type == 3 && (thing.value >>> (128 - 128)).setWidth 128 == ip

theorem ownsIp_eq_any (coo : CertificateOfOwnership) (ip : InetAddress) :
    coo.ownsIp ip = coo.things.any (thingOwns ip) := by
  cases ip with
  | nil => exact (List.any_eq_false.mpr fun _ _ => Bool.false_ne_true).symm
  | v4 ip port => rfl
  | v6 ip port => rfl

theorem setWidth_shiftRight_append (ip : BitVec 32) :
    ((ip ++ (0 : BitVec 96)) >>> (128 - 32)).setWidth 32 = ip := by
  apply BitVec.eq_of_getLsbD_eq
  intro i hi
  rw [BitVec.getLsbD_setWidth, BitVec.getLsbD_ushiftRight, BitVec.getLsbD_append,
    decide_eq_true hi, Bool.true_and, if_neg (by omega)]
  congr 1
  omega

/-- The thing of an address is one of the addresses that are equal to it. -/
theorem thingOwns_thingOf {ip ip' : InetAddress} {thing : Thing} (h : thingOf ip' = some thing) :
    thingOwns ip thing = ip.ipsEqual ip' := by
  cases ip' with
  | nil => cases h
  | v4 a' port' =>
      obtain rfl := Option.some.inj h
      cases ip with
      | nil => rfl
      | v4 a port =>
          show (true && _ == a) = (a == a')
          rw [setWidth_shiftRight_append, Bool.true_and, Bool.beq_comm]
      | v6 a port => rfl
  | v6 a' port' =>
      obtain rfl := Option.some.inj h
      cases ip with
      | nil => rfl
      | v4 a port => rfl
      | v6 a port =>
          show (true && (a' >>> 0).setWidth 128 == a) = (a == a')
          rw [BitVec.ushiftRight_zero, BitVec.setWidth_eq, Bool.true_and, Bool.beq_comm]

/-- Addresses have things, so that as many are taken of the ones as of the others. -/
theorem take_filterMap_thingOf {ips : List InetAddress} (h : ∀ ip ∈ ips, ip.isSet = true) (n : ℕ) :
    (ips.filterMap thingOf).take n = (ips.take n).filterMap thingOf := by
  induction ips generalizing n with
  | nil =>
      rw [List.take_nil]
      exact List.take_nil
  | cons ip ips ih =>
      have hthing : ∃ thing, thingOf ip = some thing := by
        cases ip with
        | nil => exact absurd (h .nil List.mem_cons_self) Bool.false_ne_true
        | v4 a port => exact ⟨_, rfl⟩
        | v6 a port => exact ⟨_, rfl⟩
      obtain ⟨thing, hthing⟩ := hthing
      rw [List.filterMap_cons_some hthing]
      cases n with
      | zero => rfl
      | succ n =>
          rw [List.take_succ_cons, List.take_succ_cons, List.filterMap_cons_some hthing,
            ih (fun x hx => h x (List.mem_cons_of_mem _ hx))]

/-- No address behind the sixteenth is a new one. -/
def Covered (ips : List InetAddress) : Prop :=
  ∀ ip ∈ ips.drop CertificateOfOwnership.maxThings,
    ∃ ip' ∈ ips.take CertificateOfOwnership.maxThings, ip.ipsEqual ip' = true

/-- A certificate owns the addresses that are equal to one of the first sixteen. -/
theorem ownsIp_ownership (signature : Bytes → Bytes) (q : ConfigRequest)
    {ips : List InetAddress} (h : ∀ ip ∈ ips, ip.isSet = true) (ip : InetAddress) :
    (ownership signature q ips).ownsIp ip = true ↔
      ∃ ip' ∈ ips.take CertificateOfOwnership.maxThings, ip.ipsEqual ip' = true := by
  rw [ownsIp_eq_any]
  show ((ips.filterMap thingOf).take _).any _ = true ↔ _
  rw [take_filterMap_thingOf h, List.any_eq_true]
  constructor
  · rintro ⟨thing, hmem, howns⟩
    obtain ⟨ip', hip', hthing⟩ := List.mem_filterMap.mp hmem
    rw [thingOwns_thingOf hthing] at howns
    exact ⟨ip', hip', howns⟩
  · rintro ⟨ip', hip', hequal⟩
    have hset := h ip' (List.mem_of_mem_take hip')
    rcases hthing : thingOf ip' with _ | thing
    · cases ip' with
      | nil => cases hset
      | v4 a port => cases hthing
      | v6 a port => cases hthing
    · refine ⟨thing, List.mem_filterMap.mpr ⟨ip', hip', hthing⟩, ?_⟩
      rw [thingOwns_thingOf hthing]
      exact hequal

theorem ipsEqual_self (ip : InetAddress) : ip.ipsEqual ip = true := by
  cases ip with
  | nil => rfl
  | v4 a port => exact beq_self_eq_true a
  | v6 a port => exact beq_self_eq_true a

/-- **All addresses are owned** exactly if none behind the sixteenth is a new one. -/
theorem owned_iff_covered (signature : Bytes → Bytes) (q : ConfigRequest) {ips : List InetAddress}
    (h : ∀ ip ∈ ips, ip.isSet = true) {coos : List CertificateOfOwnership}
    (hcoos : issueOwnership signature q ips = .ok coos) :
    (∀ ip ∈ ips, ∃ coo ∈ coos, coo.ownsIp ip = true) ↔ Covered ips := by
  rw [issueOwnership_eq] at hcoos
  obtain rfl := Except.ok.inj hcoos
  by_cases hempty : ips.isEmpty = true
  · obtain rfl := List.isEmpty_iff.mp hempty
    exact iff_of_true (fun ip hip => absurd hip List.not_mem_nil) fun ip hip =>
      absurd hip List.not_mem_nil
  · rw [if_neg hempty]
    constructor
    · intro howned ip hip
      obtain ⟨coo, hcoo, howns⟩ := howned ip (List.mem_of_mem_drop hip)
      obtain rfl := List.mem_singleton.mp hcoo
      exact (ownsIp_ownership signature q h ip).mp howns
    · intro hcovered ip hip
      refine ⟨_, List.mem_singleton_self _, (ownsIp_ownership signature q h ip).mpr ?_⟩
      -- an address is among the first, or behind them
      rw [← List.take_append_drop CertificateOfOwnership.maxThings ips] at hip
      rcases List.mem_append.mp hip with hfirst | hbehind
      · exact ⟨ip, hfirst, ipsEqual_self ip⟩
      · exact hcovered ip hbehind

/-! ### What is sent -/

section Sent

variable {H : Host} {ecc : Ecc} {signature : Bytes → Bytes}
  {random : ℕ → ℕ → BitVec 64 × BitVec 64} {q : ConfigRequest}

/-- The lists change two fields of the record. -/
theorem get_issueRulesEngine {pton : InetPton} {nc : ConfigFields} {r : ConfigFields × Json}
    (h : issueRulesEngine pton signature q nc = .ok r) {name : String}
    (hcapabilities : name ≠ "capabilities") (htags : name ≠ "tags") :
    r.2.get name = q.member.get name := by
  unfold issueRulesEngine at h
  split_ifs at h
  · obtain ⟨_, _, h⟩ := bind_ok.mp h
    obtain rfl := Except.ok.inj h
    rfl
  · obtain ⟨_, _, h⟩ := bind_ok.mp h
    obtain ⟨_, _, h⟩ := bind_ok.mp h
    obtain ⟨_, _, h⟩ := bind_ok.mp h
    obtain ⟨_, _, h⟩ := bind_ok.mp h
    obtain rfl := Except.ok.inj h
    show Json.get (Json.set (Json.set _ _ _) _ _) name = _
    rw [Json.get_set_of_ne htags, Json.get_set_of_ne hcapabilities]

theorem issueLists_ok {pton : InetPton} {nc : ConfigFields} {r : ConfigFields × Json}
    (h : issueLists pton signature q nc = .ok r) :
    issueRoutes pton (q.network.get "routes").elements [] = .ok r.1.routes ∧
      ∀ name, name ≠ "capabilities" → name ≠ "tags" → r.2.get name = q.member.get name := by
  obtain ⟨_, _, h⟩ := bind_ok.mp h
  obtain ⟨issued, hissued, h⟩ := bind_ok.mp h
  obtain ⟨routes, hroutes, h⟩ := bind_ok.mp h
  obtain ⟨_, _, h⟩ := bind_ok.mp h
  obtain rfl := Except.ok.inj h
  exact ⟨hroutes, fun name => get_issueRulesEngine hissued⟩

/-- **The addresses that are sent** are the first of those that the member has, by the routes of the
network and its own record, and the certificates are issued for them. -/
theorem issueConfig_ok {r : ConfigFields × Json}
    (h : issueConfig H ecc signature random q = .ok r) :
    ∃ routes, issueRoutes H.text.toInetPton (q.network.get "routes").elements [] = .ok routes ∧
      r.1.staticIps =
        (memberIps H (q.addresses random routes) q.member).take maxAssignedAddresses ∧
      issueOwnership signature q r.1.staticIps = .ok r.1.certificatesOfOwnership := by
  obtain ⟨issued, hissued, h⟩ := bind_ok.mp h
  obtain ⟨dns, _, h⟩ := bind_ok.mp h
  obtain ⟨nc, hnc, h⟩ := bind_ok.mp h
  obtain rfl := Except.ok.inj h
  obtain ⟨coos, hcoos, hnc⟩ := bind_ok.mp hnc
  obtain rfl := Except.ok.inj hnc
  obtain ⟨header, _, hissued⟩ := bind_ok.mp hissued
  obtain ⟨lists, hlists, hissued⟩ := bind_ok.mp hissued
  rw [issueAddresses_eq] at hissued
  obtain rfl := Except.ok.inj hissued
  obtain ⟨hroutes, hfields⟩ := issueLists_ok hlists
  refine ⟨lists.1.routes, hroutes, ?_, hcoos⟩
  rw [← memberIps_congr (hfields "ipAssignments" (by decide) (by decide))
    (hfields "noAutoAssignIps" (by decide) (by decide))]

/-- **Every address that is sent is owned**, in each configuration that is sent, exactly if the
addresses of the member bring nothing new behind the sixteenth. -/
theorem issueConfig_owned_iff (H : Host) (ecc : Ecc) (signature : Bytes → Bytes)
    (random : ℕ → ℕ → BitVec 64 × BitVec 64) (q : ConfigRequest) :
    (∀ nc member', issueConfig H ecc signature random q = .ok (nc, member') →
        ∀ ip ∈ nc.staticIps, ∃ coo ∈ nc.certificatesOfOwnership, coo.ownsIp ip = true) ↔
      (∀ r, issueConfig H ecc signature random q ≠ .ok r) ∨
        ∀ routes,
          issueRoutes H.text.toInetPton (q.network.get "routes").elements [] = .ok routes →
          Covered ((memberIps H
            (q.addresses random routes) q.member).take maxAssignedAddresses) := by
  rcases hsent : issueConfig H ecc signature random q with fault | ⟨nc, member'⟩
  · refine iff_of_true (fun nc member' h => ?_) (Or.inl fun r h => ?_)
    · cases h
    · cases h
  · obtain ⟨routes, hroutes, hips, hcoos⟩ := issueConfig_ok hsent
    dsimp only at hips hcoos
    have hset : ∀ ip ∈ nc.staticIps, ip.isSet = true := by
      intro ip hip
      rw [hips] at hip
      exact isSet_memberIps ip (List.mem_of_mem_take hip)
    have howned := owned_iff_covered signature q hset hcoos
    constructor
    · intro h
      refine Or.inr fun routes' hroutes' => ?_
      obtain rfl := Except.ok.inj (hroutes.symm.trans hroutes')
      rw [← hips]
      exact howned.mp (h nc member' rfl)
    · rintro (hnone | hcovered) nc' member'' h
      · exact absurd rfl (hnone (nc, member'))
      · obtain ⟨rfl, rfl⟩ := Prod.mk.inj (Except.ok.inj h)
        refine howned.mpr ?_
        rw [hips]
        exact hcovered routes hroutes

/-- A network with one route. -/
def lanNetwork : Json :=
  .object [("routes", .array [.object [("target", .string "10.0.0.0/8")]])]

/-- A member with 17 addresses in it. -/
def manyAddresses : Json :=
  .object [("ipAssignments", .array
    (["0", "1", "2", "3", "4", "5", "6", "7", "8", "9", "10", "11", "12", "13", "14", "15",
      "16"].map fun i => .string ("10.0.0." ++ i)))]

/-- The seventeenth address is owned by no certificate. -/
theorem seventeenth_not_owned :
    ¬∀ (H : Host) (ecc : Ecc) (signature : Bytes → Bytes)
      (random : ℕ → ℕ → BitVec 64 × BitVec 64) (q : ConfigRequest) (nc : ConfigFields)
      (member' : Json), issueConfig H ecc signature random q = .ok (nc, member') →
      ∀ ip ∈ nc.staticIps, ∃ coo ∈ nc.certificatesOfOwnership, coo.ownsIp ip = true := by
  intro h
  have hsent : (issueConfig dottedHost unsigned (fun _ => []) (fun _ _ => (0, 0))
      (oldNodeRequest lanNetwork manyAddresses)).toOption.any (fun r =>
        r.1.staticIps.any fun ip => !r.1.certificatesOfOwnership.any fun coo => coo.ownsIp ip) =
      true := by decide +kernel
  generalize oldNodeRequest lanNetwork manyAddresses = q at hsent
  rcases hbuilt : issueConfig dottedHost unsigned (fun _ => []) (fun _ _ => (0, 0)) q with
    fault | ⟨nc, member'⟩
  · rw [hbuilt] at hsent
    cases hsent
  · rw [hbuilt] at hsent
    obtain ⟨ip, hip, hnone⟩ := List.any_eq_true.mp hsent
    obtain ⟨coo, hcoo, howns⟩ := h _ _ _ _ q nc member' hbuilt ip hip
    rw [List.any_eq_true.mpr ⟨coo, hcoo, howns⟩] at hnone
    cases hnone

end Sent

end ZGalaxy
