/-
ZGalaxy/ExternalConfig.lean

What a network tells the outside of itself: `Network::_externalConfig`.

The exported structure has arrays of fixed sizes.  Addresses and routes are copied by loops over the
slots, and text up to the size of its field; the groups that the network is subscribed to are copied
by a loop over the groups, of which there is no limit.  `externalConfig_eq` says what comes of it:
the export, or a write behind the array of groups.

The groups are a sorted vector without duplicates in every run (`SortedGroups.step`).

Main result: `exports_inside_iff`.
-/
import ZGalaxy.BoundedWrites
import ZGalaxy.Bridging
import ZGalaxy.ConfigDictionary
import ZGalaxy.MulticastLike
import ZGalaxy.SortedVector

namespace ZGalaxy

open BoundedWrites ByteList SortedVector

/-! ### The order of groups -/

instance : HashCode MulticastGroup := ⟨fun g => g.mac.toNat ^^^ g.adi.toNat⟩

namespace MulticastGroup

/-- `MulticastGroup::operator<` -/
def lt (g g' : MulticastGroup) : Bool :=
  if g.mac < g'.mac then true
  else if g.mac = g'.mac then decide (g.adi < g'.adi)
  else false

/-- A number that has the order of groups. -/
def key (g : MulticastGroup) : ℕ := g.mac.toNat * 4294967296 + g.adi.toNat

theorem lt_iff {g g' : MulticastGroup} : lt g g' = true ↔ g.key < g'.key := by
  have h : g.adi.toNat < 4294967296 := g.adi.toNat_lt
  have h' : g'.adi.toNat < 4294967296 := g'.adi.toNat_lt
  unfold lt key
  split_ifs with hlt heq
  · rw [BitVec.lt_def] at hlt
    exact iff_of_true rfl (by omega)
  · rw [decide_eq_true_iff, UInt32.lt_iff_toNat_lt, heq]
    omega
  · rw [BitVec.lt_def] at hlt
    rw [← BitVec.toNat_inj] at heq
    exact iff_of_false id (by omega)

theorem eq_of_key {g g' : MulticastGroup} (h : g.key = g'.key) : g = g' := by
  have hadi : g.adi.toNat < 4294967296 := g.adi.toNat_lt
  have hadi' : g'.adi.toNat < 4294967296 := g'.adi.toNat_lt
  unfold key at h
  rcases g with ⟨mac, adi⟩
  rcases g' with ⟨mac', adi'⟩
  have hmac : mac = mac' := BitVec.eq_of_toNat_eq (by dsimp only at *; omega)
  have hsame : adi = adi' := UInt32.toNat_inj.mp (by dsimp only at *; omega)
  rw [hmac, hsame]

end MulticastGroup

/-! ### The exported structure -/

/-- The arrays of `ZT_VirtualNetworkConfig`; all of `dns` is copied as one. -/
inductive ExternalArray
  | name
  | assignedAddresses
  | routes
  | multicastSubscriptions
  | dns
  | authenticationURL
  | issuerURL
  | centralAuthURL
  | ssoNonce
  | ssoState
  | ssoClientID
  | ssoProvider
deriving DecidableEq

/-- `ZT_MAX_MULTICAST_SUBSCRIPTIONS` -/
def maxMulticastSubscriptions : ℕ := 1024

namespace ExternalArray

/-- How many elements an array has. -/
def size : ExternalArray → ℕ
  | name => 128
  | assignedAddresses => maxAssignedAddresses
  | routes => maxNetworkRoutes
  | multicastSubscriptions => maxMulticastSubscriptions
  | dns => 1
  | authenticationURL | issuerURL | centralAuthURL => 2048
  | ssoNonce => 128
  | ssoState | ssoClientID => 256
  | ssoProvider => 64

end ExternalArray

/-- `ZT_VirtualNetworkStatus` -/
inductive VirtualNetworkStatus
  | requestingConfiguration
  | ok
  | accessDenied
  | notFound
  | portError
  | authenticationRequired
deriving DecidableEq

/-- `ZT_VirtualNetworkConfig` -/
structure VirtualNetworkConfig where
  nwid : NetworkId
  mac : Mac
  name : Bytes
  status : VirtualNetworkStatus
  isPublic : Bool
  mtu : UInt32
  bridge : Bool
  broadcastEnabled : Bool
  portError : ℤ
  netconfRevision : UInt64
  assignedAddressCount : ℕ
  assignedAddresses : List InetAddress
  routeCount : ℕ
  routes : List VirtualNetworkRoute
  multicastSubscriptionCount : ℕ
  multicastSubscriptions : List MulticastGroup
  dns : VirtualNetworkDNS
  authenticationURL : Bytes
  ssoVersion : UInt64
  authenticationExpiryTime : UInt64
  ssoEnabled : Bool
  centralAuthURL : Bytes
  issuerURL : Bytes
  ssoNonce : Bytes
  ssoState : Bytes
  ssoClientID : Bytes
  ssoProvider : Bytes

/-! ### The network -/

/-- `_netconfFailure` -/
inductive NetconfFailure
  | none
  | accessDenied
  | notFound
  | initFailed
  | authenticationRequired
deriving DecidableEq

/-- What `Network::_externalConfig` reads of a network, and the groups behind bridges. -/
structure ExportedNetwork where
  ownAddress : Address
  id : NetworkId
  config : ConfigFields
  netconfFailure : NetconfFailure
  portError : ℤ
  authenticationURL : Bytes
  myMulticastGroups : List MulticastGroup
  multicastGroupsBehindMe : Hashtable MulticastGroup ℤ
  destroyed : Bool

/-- `Utils::scopy`, of a C string, into an array. -/
def ExternalArray.scopy (array : ExternalArray) (src : Bytes) :
    Except (Fault ExternalArray Empty) Bytes := do
  -- the terminating zero is written behind the text, or in the last place
  write ExternalArray.size array 0 (min (src.length + 1) array.size)
  pure (src.take (array.size - 1))

/-- A loop over the first slots of an array: those that the source has are copied, the others
cleared. -/
def copySlots {α : Type} (array : ExternalArray) (slots : ℕ) (src : List α) :
    Except (Fault ExternalArray Empty) (List α) :=
  (List.range slots).foldlM (fun copied i => do
    write ExternalArray.size array i 1
    pure (copied ++ (src[i]?).toList)) []

/-- `NetworkConfig::operator bool` -/
def ConfigFields.isSet (nc : ConfigFields) : Bool := nc.networkId != 0

namespace ExportedNetwork

variable (n : ExportedNetwork)

/-- `Network::_status` -/
def status : VirtualNetworkStatus :=
  if n.portError ≠ 0 then .portError
  else match n.netconfFailure with
    | .accessDenied => .accessDenied
    | .notFound => .notFound
    | .none => if n.config.isSet then .ok else .requestingConfiguration
    | .authenticationRequired => .authenticationRequired
    | .initFailed => .portError

/-- The node is among the active bridges. -/
def isBridge : Bool :=
  n.config.specialists.any fun s =>
    s.toBitVec &&& specialistTypeActiveBridge != 0 && Address.ofUInt64 s.toBitVec == n.ownAddress

/-- `Network::_externalConfig` -/
def externalConfig : Except (Fault ExternalArray Empty) VirtualNetworkConfig := do
  let name ← ExternalArray.scopy .name (if n.config.isSet then n.config.name else [])
  let assignedAddresses ← copySlots .assignedAddresses maxAssignedAddresses n.config.staticIps
  let routes ← copySlots .routes maxNetworkRoutes n.config.routes
  -- the count is set first, and then each group copied
  let multicastSubscriptions ← n.myMulticastGroups.foldlM
    (push ExternalArray.size .multicastSubscriptions) []
  write ExternalArray.size .dns 0 1
  let authenticationURL ← ExternalArray.scopy .authenticationURL n.authenticationURL
  let centralAuthURL ← ExternalArray.scopy .centralAuthURL n.config.centralAuthURL
  let issuerURL ← ExternalArray.scopy .issuerURL n.config.issuerURL
  let ssoNonce ← ExternalArray.scopy .ssoNonce n.config.ssoNonce
  let ssoState ← ExternalArray.scopy .ssoState n.config.ssoState
  let ssoClientID ← ExternalArray.scopy .ssoClientID n.config.ssoClientID
  let ssoProvider ← ExternalArray.scopy .ssoProvider n.config.ssoProvider
  pure {
    nwid := n.id
    mac := Mac.fromAddress n.ownAddress n.id
    name := name
    status := n.status
    isPublic := n.config.isSet && n.config.type != 0
    mtu := if n.config.isSet then n.config.mtu else 2800
    bridge := n.isBridge
    broadcastEnabled := n.config.isSet && n.config.flags &&& 2 != 0
    portError := n.portError
    netconfRevision := if n.config.isSet then n.config.revision else 0
    assignedAddressCount := assignedAddresses.length
    assignedAddresses := assignedAddresses
    routeCount := routes.length
    routes := routes
    multicastSubscriptionCount := n.myMulticastGroups.length
    multicastSubscriptions := multicastSubscriptions
    dns := n.config.dns
    authenticationURL := authenticationURL
    ssoVersion := n.config.ssoVersion
    authenticationExpiryTime := n.config.authenticationExpiryTime
    ssoEnabled := n.config.ssoEnabled
    centralAuthURL := centralAuthURL
    issuerURL := issuerURL
    ssoNonce := ssoNonce
    ssoState := ssoState
    ssoClientID := ssoClientID
    ssoProvider := ssoProvider }

/-! ### Operations -/

/-- `std::binary_search` -/
def isSubscribed (mg : MulticastGroup) : Bool :=
  (n.myMulticastGroups[lowerBound (fun g => g.lt mg) n.myMulticastGroups]?).any fun g => !mg.lt g

/-- `Network::multicastSubscribe`.  What is sent to members is left out. -/
def multicastSubscribe (mg : MulticastGroup) : ExportedNetwork :=
  if n.isSubscribed mg then n
  else
    -- `std::upper_bound`
    let i := lowerBound (fun g => !mg.lt g) n.myMulticastGroups
    { n with myMulticastGroups := n.myMulticastGroups.insertIdx i mg }

/-- `Network::multicastUnsubscribe` -/
def multicastUnsubscribe (mg : MulticastGroup) : ExportedNetwork :=
  let i := lowerBound (fun g => g.lt mg) n.myMulticastGroups
  if n.myMulticastGroups[i]? = some mg then
    { n with myMulticastGroups := n.myMulticastGroups.eraseIdx i }
  else n

/-- The configuration is for this node and this network, and not the one it has. -/
def accepts (nconf : ConfigFields) : Bool :=
  !n.destroyed && nconf.issuedTo == n.ownAddress && nconf.networkId.toBitVec == n.id
    && n.config != nconf

/-- The network with a configuration it accepts, as it is exported. -/
def configured (nconf : ConfigFields) : ExportedNetwork :=
  { n with config := nconf, netconfFailure := .none }

/-- `Network::setConfiguration`, with what the port that is configured answers. -/
def setConfiguration (nconf : ConfigFields) (portError : ℤ) : ExportedNetwork :=
  if n.accepts nconf then
    { n.configured nconf with
      portError := portError
      authenticationURL := nconf.authenticationURL }
  else n

/-- `Network::learnBridgedMulticastGroup`.  What is sent to members is left out. -/
def learnBridgedMulticastGroup (mg : MulticastGroup) (now : ℤ) : ExportedNetwork :=
  { n with multicastGroupsBehindMe := n.multicastGroupsBehindMe.set mg now }

/-- A network just joined. -/
def joined (ownAddress : Address) (id : NetworkId) : ExportedNetwork where
  ownAddress := ownAddress
  id := id
  config := ConfigFields.nil
  netconfFailure := .none
  portError := 0
  authenticationURL := []
  myMulticastGroups := []
  multicastGroupsBehindMe := .empty 64 Hashtable.buckets_pos
  destroyed := false

end ExportedNetwork

/-- The calls on a network. -/
inductive ExportEvent
  | multicastSubscribe (mg : MulticastGroup)
  | multicastUnsubscribe (mg : MulticastGroup)
  | setConfiguration (nconf : ConfigFields) (portError : ℤ)
  | learnBridgedMulticastGroup (mg : MulticastGroup) (now : ℤ)
  /-- the configuration is asked for -/
  | externalConfig

/-- What a call has exported, or where it wrote. -/
abbrev Export := Except (Fault ExternalArray Empty) VirtualNetworkConfig

/-- A network taking calls, with what each exports. -/
def exporting : Machine ExportedNetwork ExportEvent Export where
  step n
    | .multicastSubscribe mg => (n.multicastSubscribe mg, [])
    | .multicastUnsubscribe mg => (n.multicastUnsubscribe mg, [])
    | .setConfiguration nconf portError =>
        (n.setConfiguration nconf portError,
          if n.accepts nconf then [(n.configured nconf).externalConfig] else [])
    | .learnBridgedMulticastGroup mg now => (n.learnBridgedMulticastGroup mg now, [])
    | .externalConfig => (n, [n.externalConfig])

namespace ExportedNetwork

variable {n : ExportedNetwork}

/-! ### What is exported -/

theorem scopy_ok (array : ExternalArray) (src : Bytes) :
    array.scopy src = .ok (src.take (array.size - 1)) := by
  unfold ExternalArray.scopy
  rw [write_ok (by omega)]
  rfl

theorem copySlots_ok {α : Type} {array : ExternalArray} {slots : ℕ} (h : slots ≤ array.size)
    (src : List α) : copySlots array slots src = .ok (src.take slots) := by
  unfold copySlots
  induction slots with
  | zero => rfl
  | succ slots ih =>
      rw [List.range_succ, List.foldlM_append, ih (Nat.le_of_succ_le h)]
      show (do
        write ExternalArray.size array slots 1
        pure (src.take slots ++ (src[slots]?).toList)) >>= pure = _
      rw [write_ok h, List.take_add_one]
      rfl

/-- Groups are pushed while there is room. -/
theorem foldlM_push {array : ExternalArray} (gs copied : List MulticastGroup) :
    gs.foldlM (push ExternalArray.size array) copied =
      if copied.length + gs.length ≤ array.size ∨ gs = [] then .ok (copied ++ gs)
      else (.error (.outside array) : Except (Fault ExternalArray Empty) _) := by
  -- on the groups still to copy: those that were copied go to `copied`
  induction gs generalizing copied with
  | nil =>
      rw [if_pos (.inr rfl), List.append_nil]
      rfl
  | cons g gs ih =>
      rw [List.foldlM_cons]
      by_cases hroom : copied.length < array.size
      · rw [push_ok hroom]
        show gs.foldlM (push ExternalArray.size array) (copied ++ [g]) = _
        rw [ih, List.append_assoc, List.singleton_append]
        refine if_congr ?_ rfl rfl
        rw [List.length_append, List.length_singleton, List.length_cons]
        constructor
        · rintro (h | rfl)
          · exact .inl (by omega)
          · exact .inl (by simpa using Nat.succ_le_of_lt hroom)
        · rintro (h | h)
          · exact .inl (by omega)
          · cases h
      · rw [if_neg]
        · unfold push write
          rw [if_neg (by omega)]
          rfl
        · rintro (h | h)
          · rw [List.length_cons] at h
            omega
          · cases h

/-- The subscriptions are the one thing that may not fit. -/
theorem subscriptions_eq (gs : List MulticastGroup) :
    gs.foldlM (push ExternalArray.size .multicastSubscriptions) [] =
      if gs.length ≤ maxMulticastSubscriptions then .ok gs
      else (.error (.outside .multicastSubscriptions) : Except (Fault ExternalArray Empty) _) := by
  rw [foldlM_push]
  refine if_congr ?_ rfl rfl
  rw [List.length_nil, Nat.zero_add]
  constructor
  · rintro (h | rfl)
    · exact h
    · exact Nat.zero_le _
  · exact .inl

/-- The counts are no larger than the arrays. -/
structure CountsWithin (ec : VirtualNetworkConfig) : Prop where
  assignedAddresses : ec.assignedAddressCount ≤ ExternalArray.assignedAddresses.size
  routes : ec.routeCount ≤ ExternalArray.routes.size
  multicastSubscriptions :
    ec.multicastSubscriptionCount ≤ ExternalArray.multicastSubscriptions.size

/-- **What comes of an export**: one within its bounds, or a write behind the groups. -/
theorem externalConfig_eq (n : ExportedNetwork) :
    (n.myMulticastGroups.length ≤ maxMulticastSubscriptions ∧
      ∃ ec, n.externalConfig = .ok ec ∧ CountsWithin ec ∧
        ec.multicastSubscriptions = n.myMulticastGroups) ∨
    (maxMulticastSubscriptions < n.myMulticastGroups.length ∧
      n.externalConfig = .error (.outside .multicastSubscriptions)) := by
  unfold externalConfig
  rw [scopy_ok, copySlots_ok (Nat.le_refl maxAssignedAddresses),
    copySlots_ok (Nat.le_refl maxNetworkRoutes), subscriptions_eq]
  by_cases h : n.myMulticastGroups.length ≤ maxMulticastSubscriptions
  · rw [if_pos h, scopy_ok, scopy_ok, scopy_ok, scopy_ok, scopy_ok, scopy_ok, scopy_ok]
    refine .inl ⟨h, _, rfl, ⟨?_, ?_, h⟩, rfl⟩
    · exact List.length_take_le _ _
    · exact List.length_take_le _ _
  · rw [if_neg h]
    exact .inr ⟨Nat.lt_of_not_le h, rfl⟩

/-- **An export stays inside** exactly if the groups fit. -/
theorem inside_externalConfig_iff (n : ExportedNetwork) :
    Inside CountsWithin n.externalConfig ↔
      n.myMulticastGroups.length ≤ maxMulticastSubscriptions := by
  rcases externalConfig_eq n with ⟨h, ec, heq, hcounts, -⟩ | ⟨h, heq⟩
  · rw [heq]
    exact iff_of_true hcounts h
  · rw [heq]
    exact iff_of_false (fun hinside => hinside) (Nat.not_le.mpr h)

/-! ### Sorted groups -/

/-- The groups are in order, and so without duplicates. -/
def SortedGroups (n : ExportedNetwork) : Prop :=
  n.myMulticastGroups.Pairwise fun g g' => g.lt g' = true

theorem SortedGroups.nodup (h : SortedGroups n) : n.myMulticastGroups.Nodup := by
  refine h.imp ?_
  rintro g g' hlt rfl
  exact Nat.lt_irrefl _ (MulticastGroup.lt_iff.mp hlt)

/-- What is below a group is in front. -/
theorem SortedGroups.split (h : SortedGroups n) (mg : MulticastGroup) :
    ∃ l₁ l₂, n.myMulticastGroups = l₁ ++ l₂ ∧ (∀ g ∈ l₁, g.lt mg = true) ∧
      ∀ g ∈ l₂, g.lt mg = false := by
  refine split_of_pairwise h fun g g' hlt hg' => ?_
  rw [MulticastGroup.lt_iff] at hlt hg' ⊢
  exact Nat.lt_trans hlt hg'

/-- The search finds a group exactly if it is subscribed. -/
theorem SortedGroups.isSubscribed_iff (h : SortedGroups n) (mg : MulticastGroup) :
    n.isSubscribed mg = true ↔ mg ∈ n.myMulticastGroups := by
  obtain ⟨l₁, l₂, hsplit, hbelow, hnot⟩ := h.split mg
  have hself : mg.lt mg = false := by
    rw [Bool.eq_false_iff]
    exact fun hlt => Nat.lt_irrefl _ (MulticastGroup.lt_iff.mp hlt)
  unfold isSubscribed
  unfold SortedGroups at h
  rw [hsplit] at h ⊢
  rw [lowerBound_append hbelow hnot, List.getElem?_append_right (Nat.le_refl _), Nat.sub_self]
  rcases l₂ with - | ⟨g₀, l₂⟩
  · refine iff_of_false Bool.false_ne_true fun hmem => ?_
    rw [List.append_nil] at hmem
    exact Bool.false_ne_true (hself.symm.trans (hbelow mg hmem))
  · show (!mg.lt g₀) = true ↔ _
    rw [Bool.not_eq_true', Bool.eq_false_iff]
    constructor
    · intro hfound
      -- neither is below the other
      have hg₀ := hnot g₀ List.mem_cons_self
      have hkey : mg.key = g₀.key := by
        rw [Bool.eq_false_iff] at hg₀
        rw [Ne, MulticastGroup.lt_iff] at hfound hg₀
        omega
      rw [MulticastGroup.eq_of_key hkey]
      exact List.mem_append_right _ List.mem_cons_self
    · intro hmem hlt
      rcases List.mem_append.mp hmem with hmem | hmem
      · exact Bool.false_ne_true (hself.symm.trans (hbelow mg hmem))
      · rcases List.mem_cons.mp hmem with rfl | hmem
        · exact Bool.false_ne_true (hself.symm.trans hlt)
        · have hrest := (List.pairwise_cons.mp (List.pairwise_append.mp h).2.1).1 mg hmem
          rw [MulticastGroup.lt_iff] at hlt hrest
          exact Nat.lt_asymm hlt hrest

/-- **A group that is subscribed to** takes its place among the others. -/
theorem SortedGroups.multicastSubscribe_eq (h : SortedGroups n) {mg : MulticastGroup}
    (hnew : mg ∉ n.myMulticastGroups) :
    ∃ l₁ l₂, n.myMulticastGroups = l₁ ++ l₂ ∧
      (n.multicastSubscribe mg).myMulticastGroups = l₁ ++ mg :: l₂ ∧
      (∀ g ∈ l₁, g.lt mg = true) ∧ ∀ g ∈ l₂, mg.lt g = true := by
  obtain ⟨l₁, l₂, hsplit, hbelow, hnot⟩ := h.split mg
  have habove : ∀ g ∈ l₂, mg.lt g = true := by
    intro g hg
    have hg' := hnot g hg
    rw [Bool.eq_false_iff, Ne, MulticastGroup.lt_iff] at hg'
    rw [MulticastGroup.lt_iff]
    refine Nat.lt_of_le_of_ne (Nat.not_lt.mp hg') fun hkey => hnew ?_
    rw [MulticastGroup.eq_of_key hkey, hsplit]
    exact List.mem_append_right _ hg
  refine ⟨l₁, l₂, hsplit, ?_, hbelow, habove⟩
  have hupper : lowerBound (fun g => !mg.lt g) (l₁ ++ l₂) = l₁.length := by
    refine lowerBound_append (fun g hg => ?_) fun g hg => ?_
    · have hlt := MulticastGroup.lt_iff.mp (hbelow g hg)
      rw [Bool.not_eq_true', Bool.eq_false_iff]
      exact fun hgt => Nat.lt_asymm hlt (MulticastGroup.lt_iff.mp hgt)
    · rw [habove g hg]
      rfl
  unfold ExportedNetwork.multicastSubscribe
  rw [if_neg fun hfound => hnew ((h.isSubscribed_iff mg).mp hfound)]
  show n.myMulticastGroups.insertIdx (lowerBound _ n.myMulticastGroups) mg = _
  rw [hsplit, hupper, insertIdx_append]

/-- Subscribing again changes nothing. -/
theorem SortedGroups.multicastSubscribe_of_mem (h : SortedGroups n) {mg : MulticastGroup}
    (hmem : mg ∈ n.myMulticastGroups) : n.multicastSubscribe mg = n :=
  if_pos ((h.isSubscribed_iff mg).mpr hmem)

theorem SortedGroups.multicastSubscribe (h : SortedGroups n) (mg : MulticastGroup) :
    SortedGroups (n.multicastSubscribe mg) := by
  by_cases hmem : mg ∈ n.myMulticastGroups
  · rwa [h.multicastSubscribe_of_mem hmem]
  · obtain ⟨l₁, l₂, hsplit, hsubscribed, hbelow, habove⟩ := h.multicastSubscribe_eq hmem
    unfold SortedGroups at h ⊢
    rw [hsplit] at h
    rw [hsubscribed]
    obtain ⟨h₁, h₂, hcross⟩ := List.pairwise_append.mp h
    refine List.pairwise_append.mpr ⟨h₁, List.pairwise_cons.mpr ⟨habove, h₂⟩, ?_⟩
    intro g hg g' hg'
    rcases List.mem_cons.mp hg' with rfl | hg'
    · exact hbelow g hg
    · exact hcross g hg g' hg'

/-- What is subscribed then. -/
theorem SortedGroups.mem_multicastSubscribe (h : SortedGroups n) (mg g : MulticastGroup) :
    g ∈ (n.multicastSubscribe mg).myMulticastGroups ↔ g = mg ∨ g ∈ n.myMulticastGroups := by
  by_cases hmem : mg ∈ n.myMulticastGroups
  · rw [h.multicastSubscribe_of_mem hmem]
    refine (or_iff_right_of_imp ?_).symm
    rintro rfl
    exact hmem
  · obtain ⟨l₁, l₂, hsplit, hsubscribed, -⟩ := h.multicastSubscribe_eq hmem
    rw [hsubscribed, hsplit, List.mem_append, List.mem_cons, List.mem_append]
    tauto

/-- **The step lemma of the groups**: every call leaves them sorted. -/
theorem SortedGroups.step (h : SortedGroups n) (e : ExportEvent) :
    SortedGroups (exporting.step n e).1 := by
  rcases e with mg | mg | ⟨nconf, portError⟩ | ⟨mg, now⟩ | -
  · exact h.multicastSubscribe mg
  · show SortedGroups (n.multicastUnsubscribe mg)
    unfold ExportedNetwork.multicastUnsubscribe
    dsimp only
    split_ifs
    · exact h.sublist (List.eraseIdx_sublist _ _)
    · exact h
  · show SortedGroups (n.setConfiguration nconf portError)
    unfold ExportedNetwork.setConfiguration
    split_ifs
    · exact h
    · exact h
  · exact h
  · exact h

/-! ### Runs -/

/-- Each export of a step stays inside, with counts that are right, and the groups are sorted and
without duplicates after it. -/
def ExportsInside (n : ExportedNetwork) (e : ExportEvent) : Prop :=
  (∀ x ∈ (exporting.step n e).2, Inside CountsWithin x) ∧
  SortedGroups (exporting.step n e).1 ∧ (exporting.step n e).1.myMulticastGroups.Nodup

/-- A call exports: the configuration is accepted, or asked for. -/
def Exports (n : ExportedNetwork) (e : ExportEvent) : Prop :=
  e = .externalConfig ∨ ∃ nconf portError, e = .setConfiguration nconf portError ∧
    n.accepts nconf = true

theorem exportsInside_iff (h : SortedGroups n) (e : ExportEvent) :
    ExportsInside n e ↔
      (Exports n e → n.myMulticastGroups.length ≤ maxMulticastSubscriptions) := by
  have hsorted := h.step e
  unfold ExportsInside
  rw [and_iff_left ⟨hsorted, hsorted.nodup⟩]
  have hexports : (∀ x ∈ (exporting.step n e).2, Inside CountsWithin x) ↔
      (Exports n e → n.myMulticastGroups.length ≤ maxMulticastSubscriptions) := by
    have hnone : ∀ {e}, (exporting.step n e).2 = [] → ¬ Exports n e →
        ((∀ x ∈ (exporting.step n e).2, Inside CountsWithin x) ↔
          (Exports n e → n.myMulticastGroups.length ≤ maxMulticastSubscriptions)) := by
      intro e hnil hexports
      rw [hnil]
      exact iff_of_true (fun x hx => absurd hx List.not_mem_nil) fun he => absurd he hexports
    rcases e with mg | mg | ⟨nconf, portError⟩ | ⟨mg, now⟩ | -
    · refine hnone rfl ?_
      rintro (he | ⟨nconf, portError, he, -⟩) <;> cases he
    · refine hnone rfl ?_
      rintro (he | ⟨nconf, portError, he, -⟩) <;> cases he
    · have hout : (exporting.step n (.setConfiguration nconf portError)).2 =
          if n.accepts nconf then [(n.configured nconf).externalConfig] else [] := rfl
      by_cases haccepts : n.accepts nconf = true
      · rw [hout, if_pos haccepts, List.forall_mem_singleton, inside_externalConfig_iff]
        exact ⟨fun hfits _ => hfits, fun hfits => hfits (.inr ⟨nconf, portError, rfl, haccepts⟩)⟩
      · refine hnone (hout.trans (if_neg haccepts)) ?_
        rintro (he | ⟨nconf', portError', he, haccepts'⟩)
        · cases he
        · obtain ⟨rfl, -⟩ := ExportEvent.setConfiguration.inj he
          exact haccepts haccepts'
    · refine hnone rfl ?_
      rintro (he | ⟨nconf, portError, he, -⟩) <;> cases he
    · show (∀ x ∈ [n.externalConfig], Inside CountsWithin x) ↔ _
      rw [List.forall_mem_singleton, inside_externalConfig_iff]
      exact ⟨fun hfits _ => hfits, fun hfits => hfits (.inl rfl)⟩
  exact hexports

theorem guarded_exportsInside_iff (h : SortedGroups n) (es : List ExportEvent) :
    exporting.Guarded ExportsInside n es ↔
      exporting.Guarded (fun n e => Exports n e →
        n.myMulticastGroups.length ≤ maxMulticastSubscriptions) n es := by
  induction es generalizing n with
  | nil => exact Iff.rfl
  | cons e es ih => exact and_congr (exportsInside_iff h e) (ih (h.step e))

theorem sortedGroups_joined (ownAddress : Address) (id : NetworkId) :
    SortedGroups (joined ownAddress id) := List.Pairwise.nil

/-- **Exactly the runs whose exports stay inside**: whenever the configuration is exported, the
network is subscribed to no more groups than the exported structure holds.  The groups are sorted
and without duplicates in every run. -/
theorem exports_inside_iff (ownAddress : Address) (id : NetworkId) (es : List ExportEvent) :
    exporting.Guarded ExportsInside (joined ownAddress id) es ↔
      exporting.Guarded (fun n e => Exports n e →
        n.myMulticastGroups.length ≤ maxMulticastSubscriptions) (joined ownAddress id) es :=
  guarded_exportsInside_iff (sortedGroups_joined ownAddress id) es

/-- Subscriptions to so many groups of one address. -/
def subscribeMany (count : ℕ) : List ExportEvent :=
  (List.range count).map fun i => .multicastSubscribe ⟨0, UInt32.ofNat i⟩

/-- **As many groups as are subscribed to**, if they are different. -/
theorem length_subscribeMany (h : SortedGroups n) (hn : n.myMulticastGroups = []) {count : ℕ}
    (hcount : count ≤ 4294967296) :
    SortedGroups (exporting.runState n (subscribeMany count)) ∧
      (exporting.runState n (subscribeMany count)).myMulticastGroups.length = count ∧
      ∀ g ∈ (exporting.runState n (subscribeMany count)).myMulticastGroups,
        g.adi.toNat < count := by
  induction count with
  | zero =>
      refine ⟨h, ?_, ?_⟩
      · show n.myMulticastGroups.length = 0
        rw [hn]
        rfl
      · show ∀ g ∈ n.myMulticastGroups, _
        rw [hn]
        exact fun g hg => absurd hg List.not_mem_nil
  | succ count ih =>
      obtain ⟨hsorted, hlength, hadi⟩ := ih (Nat.le_of_succ_le hcount)
      have hrun : exporting.runState n (subscribeMany (count + 1)) =
          (exporting.runState n (subscribeMany count)).multicastSubscribe
            ⟨0, UInt32.ofNat count⟩ := by
        unfold subscribeMany
        rw [List.range_succ, List.map_append]
        exact Machine.runState_concat _ _ _ _
      have hofNat : (UInt32.ofNat count).toNat = count := by
        rw [UInt32.toNat_ofNat']
        exact Nat.mod_eq_of_lt hcount
      have hnew : (⟨0, UInt32.ofNat count⟩ : MulticastGroup) ∉
          (exporting.runState n (subscribeMany count)).myMulticastGroups := by
        intro hmem
        have hlt := hadi _ hmem
        rw [hofNat] at hlt
        exact Nat.lt_irrefl _ hlt
      rw [hrun]
      refine ⟨hsorted.multicastSubscribe _, ?_, fun g hg => ?_⟩
      · obtain ⟨l₁, l₂, hsplit, hsubscribed, -⟩ := hsorted.multicastSubscribe_eq hnew
        rw [hsplit, List.length_append] at hlength
        rw [hsubscribed, List.length_append, List.length_cons]
        omega
      · rcases (hsorted.mem_multicastSubscribe _ g).mp hg with rfl | hg
        · rw [hofNat]
          exact Nat.lt_succ_self _
        · exact Nat.lt_succ_of_lt (hadi g hg)

/-- One group more than the exported structure holds. -/
theorem subscriptions_overflow :
    ¬ ∀ (ownAddress : Address) (id : NetworkId) (es : List ExportEvent),
      exporting.Guarded ExportsInside (joined ownAddress id) es := by
  intro h
  obtain ⟨count, hcount⟩ : ∃ count, count = maxMulticastSubscriptions + 1 := ⟨_, rfl⟩
  have hbound : count ≤ 4294967296 := by
    rw [hcount]
    norm_num [maxMulticastSubscriptions]
  obtain ⟨-, hexport, -⟩ :=
    Machine.guarded_append_cons.mp (h 1 1 (subscribeMany count ++ .externalConfig :: []))
  obtain ⟨hsorted, hlength, -⟩ := length_subscribeMany (sortedGroups_joined 1 1) rfl hbound
  have hfits := (exportsInside_iff hsorted .externalConfig).mp hexport (.inl rfl)
  rw [hlength, hcount] at hfits
  exact Nat.not_succ_le_self _ hfits

end ExportedNetwork

end ZGalaxy
