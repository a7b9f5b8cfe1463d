/-
ZGalaxy/Reassignment.lean

Addresses that the controller assigns on its own.

A new address should lie in a pool, be free and routed in the LAN, and keep its netmask: each later
request of the member finds it stored in the record and issues it again.  The record is only
appended to, so it does keep its place.  But a new IPv6 address gets the netmask of the last route
of the LAN that contains it, a new IPv4 address that of the first route at all, and a stored one the
longest of all routes.

Main result: `assignments_stable_iff`, that all of this holds in a network, for all of its members
and whatever is allocated, exactly when no address that the searches can come to and that the routes
let pass is outside the pools, routed only through a gateway, or in a route with a longer netmask
than the one it gets.
-/
import Mathlib.Data.Fintype.Option
import Mathlib.Data.Finite.Prod
import Mathlib.Data.Finite.Sum
import Mathlib.Logic.Relation
import ZGalaxy.PoolSearch

namespace ZGalaxy

open BoundedWrites

/-! ### Requests of a member -/

section Requests

variable (H : Host)

/-- The records agree in what the addresses depend on. -/
def SameAssignments (member member' : Json) : Prop :=
  member'.get "ipAssignments" = member.get "ipAssignments" ∧
    member'.get "noAutoAssignIps" = member.get "noAutoAssignIps"

/-- A request issues addresses, and a record is saved.  In its other fields the record can have
changed meanwhile. -/
def Issues (r : AddressRequest) (member : Json) (ips : List InetAddress) (member' : Json) : Prop :=
  ∃ flags flags' after,
    issueAddresses H r member flags = .ok (ips, flags', after) ∧ SameAssignments after member'

/-- A request of the member takes the one record to the other. -/
def Saved (s : MemberSetting) (member member' : Json) : Prop :=
  ∃ (r : AddressRequest) (ips : List InetAddress),
    r.toMemberSetting = s ∧ Issues H r member ips member'

/-- The addresses of a request that are not made from ids. -/
def managedIps (r : AddressRequest) (member : Json) (ips : List InetAddress) : List InetAddress :=
  ips.drop (madeIps r member).length

/-- An address lies between the ends of a pool. -/
def InPool (pool : Json) : InetAddress → Prop
  | .nil => False
  | .v4 a _ => ∃ start stop, range4 H.text.toInetPton pool = some (start, stop) ∧
      start ≤ a ∧ a ≤ stop
  | .v6 a _ => ∃ s e, range6 H.text.toInetPton pool = some (s, e) ∧ s ≤ a ∧ a ≤ e

/-- An address is assigned as it should be, by a request that saves a record. -/
structure WellAssigned (r : AddressRequest) (member' : Json) (ip : InetAddress) : Prop where
  pool : ∃ pool ∈ pools r, InPool H pool ip
  free : ip.setPort 0 ∉ r.allocatedIps
  lan : ∃ route ∈ r.routes, route.via.isSet = false ∧ H.routed (ip.setPort 0) route = true
  mask : ∃ route ∈ r.routes, H.routed (ip.setPort 0) route = true ∧
    ip.netmaskBits = route.target.netmaskBits
  stable : ∀ member₂, Relation.ReflTransGen (Saved H r.toMemberSetting) member' member₂ →
    ∀ (r₂ : AddressRequest) (ips₂ : List InetAddress) (member₃ : Json),
      r₂.toMemberSetting = r.toMemberSetting → Issues H r₂ member₂ ips₂ member₃ →
      ip ∈ managedIps r₂ member₂ ips₂

/-- The member has no assignment that can be used. -/
def Unassigned (r : AddressRequest) (member : Json) : Prop :=
  ∀ j ∈ storedAssignments member, storedIp H r j = none

/-- In a network with some routes, addresses are assigned as they should be. -/
def AssignsWell (network : Json) (routes : List VirtualNetworkRoute) : Prop :=
  ∀ (r : AddressRequest) (member : Json) (ips : List InetAddress) (member' : Json),
    r.network = network → r.routes = routes → Unassigned H r member →
    Issues H r member ips member' →
    ∀ ip ∈ managedIps r member ips, WellAssigned H r member' ip

end Requests

/-! ### What the record keeps -/

section Records

variable {H : Host} {r : AddressRequest} {member member' : Json} {ips : List InetAddress}

theorem issues_iff :
    Issues H r member ips member' ↔
      ips = (memberIps H r member).take maxAssignedAddresses ∧
        SameAssignments (recordAfter H r member) member' := by
  constructor
  · rintro ⟨flags, flags', after, hissued, hsame⟩
    rw [issueAddresses_eq] at hissued
    obtain ⟨rfl, hrest⟩ := Prod.mk.inj (Except.ok.inj hissued)
    obtain ⟨_, rfl⟩ := Prod.mk.inj hrest
    exact ⟨rfl, hsame⟩
  · rintro ⟨rfl, hsame⟩
    exact ⟨0, _, _, issueAddresses_eq 0, hsame⟩

theorem SameAssignments.stored (h : SameAssignments member member') :
    storedAssignments member' = storedAssignments member := by
  unfold storedAssignments
  rw [h.1]

theorem SameAssignments.auto (h : SameAssignments member member') :
    noAutoAssignIps member' = noAutoAssignIps member := by
  unfold noAutoAssignIps
  rw [h.2]

/-- The record gets the texts of the new addresses. -/
theorem stored_recordAfter :
    storedAssignments (recordAfter H r member) = assignmentsAfter H r member := by
  unfold recordAfter
  split_ifs with hnew
  · unfold storedAssignments
    rw [Json.get_set, if_pos rfl]
    rfl
  · rw [Bool.not_eq_true, Bool.or_eq_false_iff] at hnew
    have h6 : newIp6 H r member = none :=
      Option.isNone_iff_eq_none.mp (Option.isSome_eq_false_iff.mp hnew.1)
    have h4 : newIp4 H r member = none :=
      Option.isNone_iff_eq_none.mp (Option.isSome_eq_false_iff.mp hnew.2)
    unfold assignmentsAfter withNew
    rw [h6, h4, Option.map_none, Option.toList_none, List.append_nil, List.append_nil]

theorem auto_recordAfter : noAutoAssignIps (recordAfter H r member) = noAutoAssignIps member := by
  unfold recordAfter noAutoAssignIps
  split_ifs
  · rw [Json.get_set_of_ne (by decide)]
  · rfl

/-- What a request leaves in the record. -/
theorem Issues.saved (h : Issues H r member ips member') :
    storedAssignments member' = assignmentsAfter H r member ∧
      noAutoAssignIps member' = noAutoAssignIps member := by
  obtain ⟨_, hsame⟩ := issues_iff.mp h
  exact ⟨hsame.stored.trans stored_recordAfter, hsame.auto.trans auto_recordAfter⟩

/-- **The record is only appended to**, over any number of requests. -/
theorem prefix_of_saved {s : MemberSetting} (h : Relation.ReflTransGen (Saved H s) member member') :
    storedAssignments member <+: storedAssignments member' ∧
      noAutoAssignIps member' = noAutoAssignIps member := by
  induction h with
  | refl => exact ⟨List.prefix_rfl, rfl⟩
  | tail _ hsaved ih =>
      obtain ⟨r, ips, _, hissues⟩ := hsaved
      obtain ⟨hstored, hauto⟩ := hissues.saved
      refine ⟨ih.1.trans ?_, hauto.trans ih.2⟩
      rw [hstored]
      unfold assignmentsAfter withNew
      rw [List.append_assoc]
      exact List.prefix_append _ _

end Records

/-! ### Texts in the record -/

section Texts

variable {H : Host}

/-- The text of an address has no zero in it. -/
theorem cText_toIpString {T : InetText} (hT : T.Lawful) (a : InetAddress) :
    cText (a.toIpString T) = a.toIpString T := by
  have hall : ∀ c ∈ (a.toIpString T).toList, (c != Char.ofNat 0) = true := by
    intro c hc
    apply bne_iff_ne.mpr
    rintro rfl
    cases a with
    | nil => exact absurd hc List.not_mem_nil
    | v4 ip port => exact absurd (hT.chars4 ip _ hc) (by decide)
    | v6 ip port => exact absurd (hT.chars6 ip _ hc) (by decide)
  unfold cText
  rw [List.takeWhile_eq_self_iff.mpr hall, String.ofList_toList]

/-- An address is read back from its text. -/
theorem ofText_toIpString (a : InetAddress) :
    InetAddress.ofText H.text.toInetPton (a.toIpString H.text) = a.setPort 0 := by
  unfold InetAddress.ofText
  rw [cText_toIpString H.lawful]
  exact InetAddress.fromString_toIpString H.lawful a

theorem setPort_setPort (a : InetAddress) (port port' : UInt16) :
    (a.setPort port).setPort port' = a.setPort port' := by
  cases a <;> rfl

theorem netmaskBits_lt (a : InetAddress) : a.netmaskBits < 65536 := by
  cases a with
  | nil => decide
  | v4 ip port => exact port.toNat_lt
  | v6 ip port => exact port.toNat_lt

theorem setPort_netmaskBits (a : InetAddress) :
    (a.setPort 0).setPort (UInt16.ofNat a.netmaskBits) = a := by
  cases a with
  | nil => rfl
  | v4 ip port =>
      show InetAddress.v4 ip (UInt16.ofNat port.toNat) = _
      rw [UInt16.ofNat_toNat]
  | v6 ip port =>
      show InetAddress.v6 ip (UInt16.ofNat port.toNat) = _
      rw [UInt16.ofNat_toNat]

theorem netmaskBits_setPort {a : InetAddress} (ha : a.isSet = true) {n : ℕ} (hn : n < 65536) :
    (a.setPort (UInt16.ofNat n)).netmaskBits = n := by
  have hport : (UInt16.ofNat n).toNat = n := UInt16.toNat_ofNat_of_lt hn
  cases a with
  | nil => cases ha
  | v4 ip port => exact hport
  | v6 ip port => exact hport

/-- The longest netmask is one of an address. -/
theorem longestMask_lt (routes : List VirtualNetworkRoute) (ip : InetAddress) :
    H.longestMask routes ip < 65536 := by
  rcases lt_or_ge (H.longestMask routes ip) 0 with hneg | hpos
  · omega
  · obtain ⟨route, _, _, hbits⟩ := Host.exists_longestMask hpos
    have := netmaskBits_lt route.target
    omega

/-- The text of an address is stored, so it is issued with the longest netmask. -/
theorem storedIp_text {r : AddressRequest} (ip : InetAddress) :
    storedIp H r (.string (ip.toIpString H.text)) =
      if 0 ≤ H.longestMask r.routes (ip.setPort 0) then
        some (ip.setPort (UInt16.ofNat (H.longestMask r.routes (ip.setPort 0)).toNat))
      else none := by
  show (some (ip.toIpString H.text)).bind _ = _
  rw [Option.bind_some, ofText_toIpString]
  dsimp only
  rw [setPort_setPort]

/-- **A stored address keeps its netmask** if that is the longest. -/
theorem storedIp_of_longest {r : AddressRequest} {ip : InetAddress}
    (h : H.longestMask r.routes (ip.setPort 0) = ip.netmaskBits) :
    storedIp H r (.string (ip.toIpString H.text)) = some ip := by
  have hself := setPort_netmaskBits ip
  rw [setPort_setPort] at hself
  rw [storedIp_text, h, if_pos (Int.natCast_nonneg _), Int.toNat_natCast, hself]

/-- A stored address that keeps its netmask has the longest. -/
theorem longest_of_storedIp {r : AddressRequest} {ip : InetAddress} (hip : ip.isSet = true)
    (h : storedIp H r (.string (ip.toIpString H.text)) = some ip) :
    H.longestMask r.routes (ip.setPort 0) = ip.netmaskBits := by
  rw [storedIp_text] at h
  split_ifs at h with hpos
  have hlt := longestMask_lt (H := H) r.routes (ip.setPort 0)
  have hbits := congrArg InetAddress.netmaskBits (Option.some.inj h)
  rw [netmaskBits_setPort hip (by omega)] at hbits
  omega

end Texts

/-! ### What is issued again -/

section Again

variable {H : Host} {r r₂ : AddressRequest} {member member' member₂ : Json}

/-- The managed addresses of a request come after those made from ids. -/
theorem managedIps_eq (ips : List InetAddress)
    (h : ips = (memberIps H r member).take maxAssignedAddresses) :
    managedIps r member ips =
      (keptIps H r member ++ newIps H r member).take
        (maxAssignedAddresses - (madeIps r member).length) := by
  have hmade : (madeIps r member).length ≤ maxAssignedAddresses :=
    length_madeIps_le.trans (by decide)
  rw [h, managedIps, memberIps, List.append_assoc, List.take_append, List.take_of_length_le hmade,
    List.drop_left]

theorem length_newIps_le : (newIps H r member).length ≤ 2 := by
  unfold newIps
  rw [List.length_append]
  exact Nat.add_le_add Option.length_toList_le Option.length_toList_le

/-- What is stored is issued the same way in every request of the setting. -/
theorem storedIp_congr (h : r₂.routes = r.routes) : storedIp H r₂ = storedIp H r := by
  funext j
  unfold storedIp
  rw [h]

/-- What is new is stored behind the rest. -/
theorem assignmentsAfter_eq :
    assignmentsAfter H r member =
      storedAssignments member ++
        (newIps H r member).map fun ip => .string (ip.toIpString H.text) := by
  unfold assignmentsAfter withNew newIps
  rw [List.append_assoc, List.map_append, Option.toList_map, Option.toList_map]

theorem keptIps_of_unassigned (h : Unassigned H r member) : keptIps H r member = [] := by
  unfold keptIps
  rw [List.filterMap_eq_nil_iff]
  exact h

/-- **A new address is issued again** in each later request if it has the longest netmask. -/
theorem stable_of_longest {ips₂ : List InetAddress} {member₃ : Json}
    (hunassigned : Unassigned H r member) (hissues : ∃ ips, Issues H r member ips member')
    (hlater : Relation.ReflTransGen (Saved H r.toMemberSetting) member' member₂)
    (hsetting : r₂.toMemberSetting = r.toMemberSetting)
    (hissues₂ : Issues H r₂ member₂ ips₂ member₃) {ip : InetAddress} (hip : ip ∈ newIps H r member)
    (hlongest : H.longestMask r.routes (ip.setPort 0) = ip.netmaskBits) :
    ip ∈ managedIps r₂ member₂ ips₂ := by
  obtain ⟨ips, hissues⟩ := hissues
  have hroutes : r₂.routes = r.routes := congrArg MemberSetting.routes hsetting
  obtain ⟨rest, hrest⟩ := (prefix_of_saved hlater).1
  rw [hissues.saved.1, assignmentsAfter_eq] at hrest
  -- what is kept begins with the new addresses of the first request
  have hkept : keptIps H r₂ member₂ =
      ((newIps H r member).map fun ip => .string (ip.toIpString H.text)).filterMap (storedIp H r)
        ++ rest.filterMap (storedIp H r) := by
    unfold keptIps
    rw [← hrest, storedIp_congr hroutes, List.filterMap_append, List.filterMap_append,
      show (storedAssignments member).filterMap (storedIp H r) = [] from
        keptIps_of_unassigned hunassigned, List.nil_append]
  have hfirst : ip ∈
      ((newIps H r member).map fun ip => .string (ip.toIpString H.text)).filterMap (storedIp H r) :=
    List.mem_filterMap.mpr ⟨_, List.mem_map.mpr ⟨ip, hip, rfl⟩, storedIp_of_longest hlongest⟩
  have hfew : (((newIps H r member).map fun ip => .string (ip.toIpString H.text)).filterMap
      (storedIp H r)).length ≤ maxAssignedAddresses - (madeIps r₂ member₂).length := by
    have hmade : (madeIps r₂ member₂).length ≤ 2 := length_madeIps_le
    have hnew : (newIps H r member).length ≤ 2 := length_newIps_le
    refine (List.length_filterMap_le _ _).trans ?_
    rw [List.length_map]
    have hmax : maxAssignedAddresses = 32 := rfl
    omega
  rw [managedIps_eq ips₂ (issues_iff.mp hissues₂).1, hkept, List.append_assoc, List.take_append,
    List.take_of_length_le hfew]
  exact List.mem_append_left _ hfirst

end Again

/-! ### What trials come to -/

/-- A word lies in a range as the search takes it: before the end, or at the start of an empty
one. -/
def InSpan (s e x : BitVec 64) : Prop := if s < e then s ≤ x ∧ x < e else x = s

/-- The addresses that the search in an IPv6 pool can come to. -/
def Tried6 (s e a : BitVec 128) : Prop :=
  (InSpan (upper s) (upper e) (upper a) ∧ InSpan (lower s) (lower e) (lower a)) ∨
    (crammed s e ∧ upper a = upper s ∧ lower a - lower s ≤ 0xffffffffff)

/-- The addresses that the search in an IPv4 pool can come to. -/
def Tried4 (start stop a : BitVec 32) : Prop :=
  (start = stop ∧ a = start) ∨ (start ≤ a ∧ a < stop)

theorem upper_append (x y : BitVec 64) : upper (x ++ y) = x := BitVec.extractLsb'_append_eq_left

theorem lower_append (x y : BitVec 64) : lower (x ++ y) = y := BitVec.extractLsb'_append_eq_right

theorem upper_append_lower (a : BitVec 128) : upper a ++ lower a = a := by
  have h : BitVec.extractLsb' 64 64 (a : BitVec (64 + 64)) ++
      BitVec.extractLsb' 0 64 (a : BitVec (64 + 64)) = a := BitVec.extractLsb'_append_extractLsb'
  exact h

theorem add_sub_word {w : ℕ} (s x : BitVec w) : s + (x - s) = x := by
  rw [BitVec.add_comm, BitVec.sub_add_cancel]

theorem sub_word_add {w : ℕ} (s x : BitVec w) : s + x - s = x := by
  rw [BitVec.add_comm, BitVec.add_sub_cancel]

theorem inSpan_offset (s e x : BitVec 64) : InSpan s e (s + randomOffset s e x) := by
  unfold InSpan randomOffset
  by_cases h : s < e
  · rw [if_pos h, if_pos h]
    have hlen : (e - s).toNat = e.toNat - s.toNat := BitVec.toNat_sub_of_le (BitVec.le_of_lt h)
    have hlt : s.toNat < e.toNat := h
    have hmod : (x % (e - s)).toNat < (e - s).toNat := by
      rw [BitVec.toNat_umod]
      exact Nat.mod_lt _ (by omega)
    have he := e.isLt
    have hadd : (s + x % (e - s)).toNat = s.toNat + (x % (e - s)).toNat := by
      rw [BitVec.toNat_add, Nat.mod_eq_of_lt (by omega)]
    rw [BitVec.le_def, BitVec.lt_def, hadd]
    omega
  · rw [if_neg h, if_neg h]
    exact BitVec.add_zero s

theorem exists_offset {s e x : BitVec 64} (h : InSpan s e x) :
    s + randomOffset s e (x - s) = x := by
  unfold InSpan at h
  unfold randomOffset
  split_ifs at h ⊢ with hlt
  · obtain ⟨hle, hbelow⟩ := h
    have hsub : (x - s).toNat = x.toNat - s.toNat := BitVec.toNat_sub_of_le hle
    have hlen : (e - s).toNat = e.toNat - s.toNat := BitVec.toNat_sub_of_le (BitVec.le_of_lt hlt)
    have hmod : (x - s) % (e - s) = x - s := by
      apply BitVec.umod_eq_of_lt
      rw [BitVec.lt_def, hsub, hlen]
      have hle' : s.toNat ≤ x.toNat := hle
      have hbelow' : x.toNat < e.toNat := hbelow
      omega
    rw [hmod, add_sub_word]
  · rw [h]
    exact BitVec.add_zero s

/-- **What a trial comes to** in an IPv6 pool. -/
theorem tried6_trial6 (s e : BitVec 128) (identity : Address)
    (random : ℕ → BitVec 64 × BitVec 64) (t : ℕ) : Tried6 s e (trial6 s e identity random t) := by
  unfold trial6
  split_ifs with hcrammed
  · refine Or.inr ⟨hcrammed.2, upper_append _ _, ?_⟩
    rw [lower_append, sub_word_add, BitVec.le_def, BitVec.toNat_setWidth_of_le]
    · exact Nat.le_of_lt_succ identity.isLt
    · decide
  · refine Or.inl ⟨?_, ?_⟩
    · rw [upper_append]
      exact inSpan_offset _ _ _
    · rw [lower_append]
      exact inSpan_offset _ _ _

/-- Each of these addresses is come to by some member, with some random numbers. -/
theorem exists_trial6 {s e a : BitVec 128} (h : Tried6 s e a) :
    ∃ (identity : Address) (random : ℕ → BitVec 64 × BitVec 64) (t : ℕ),
      t < 1000 ∧ trial6 s e identity random t = a := by
  rcases h with ⟨hupper, hlower⟩ | ⟨hcrammed, hupper, hlower⟩
  · refine ⟨0, fun _ => (upper a - upper s, lower a - lower s), 1, by decide, ?_⟩
    unfold trial6
    rw [if_neg fun h => one_ne_zero h.1, exists_offset hupper, exists_offset hlower,
      upper_append_lower]
  · refine ⟨(lower a - lower s).setWidth 40, fun _ => (0, 0), 0, by decide, ?_⟩
    have hback : ((lower a - lower s).setWidth 40).setWidth 64 = lower a - lower s := by
      apply BitVec.eq_of_toNat_eq
      rw [BitVec.toNat_setWidth, BitVec.toNat_setWidth]
      have hle : (lower a - lower s).toNat ≤ 0xffffffffff := hlower
      omega
    unfold trial6
    rw [if_pos ⟨rfl, hcrammed⟩, hback, add_sub_word, ← hupper, upper_append_lower]

/-- **What a trial comes to** in an IPv4 pool. -/
theorem tried4_trial4 {start stop : BitVec 32} (h : start ≤ stop) (identity : Address) (t : ℕ) :
    Tried4 start stop (trial4 start stop identity t) := by
  have hsub : (stop - start).toNat = stop.toNat - start.toNat := BitVec.toNat_sub_of_le h
  have hle : start.toNat ≤ stop.toNat := h
  have hstop := stop.isLt
  unfold trial4
  extract_lets ipRangeLen ipTrialCounter
  by_cases hpos : 0 < ipRangeLen
  · rw [if_pos hpos]
    have hlen : 0 < (stop - start).toNat := hpos
    have hmod : (ipTrialCounter % ipRangeLen).toNat < (stop - start).toNat := by
      rw [BitVec.toNat_umod]
      exact Nat.mod_lt _ hlen
    have hadd : (start + ipTrialCounter % ipRangeLen).toNat =
        start.toNat + (ipTrialCounter % ipRangeLen).toNat := by
      rw [BitVec.toNat_add, Nat.mod_eq_of_lt (by omega)]
    refine Or.inr ⟨?_, ?_⟩
    · rw [BitVec.le_def, hadd]
      exact Nat.le_add_right _ _
    · rw [BitVec.lt_def, hadd]
      omega
  · rw [if_neg hpos]
    refine Or.inl ⟨BitVec.eq_of_toNat_eq ?_, rfl⟩
    have hzero : (stop - start).toNat = 0 := Nat.eq_zero_of_not_pos hpos
    omega

/-- Each of these addresses is what some member tries first. -/
theorem exists_trial4 {start stop a : BitVec 32} (h : Tried4 start stop a) :
    ∃ identity : Address, trial4 start stop identity 0 = a := by
  rcases h with ⟨rfl, rfl⟩ | ⟨hstart, hstop⟩
  · refine ⟨0, ?_⟩
    unfold trial4
    extract_lets ipRangeLen ipTrialCounter
    rw [if_neg]
    show ¬0 < a - a
    rw [BitVec.sub_self]
    exact BitVec.lt_irrefl _
  · have hle : start.toNat ≤ a.toNat := hstart
    have hlt : a.toNat < stop.toNat := hstop
    have hlen : (stop - start).toNat = stop.toNat - start.toNat :=
      BitVec.toNat_sub_of_le (BitVec.le_trans hstart (BitVec.le_of_lt hstop))
    have hsub : (a - start).toNat = a.toNat - start.toNat := BitVec.toNat_sub_of_le hstart
    refine ⟨(a - start).setWidth 40, ?_⟩
    unfold trial4
    extract_lets ipRangeLen ipTrialCounter
    have hpos : 0 < ipRangeLen := by
      rw [BitVec.lt_def]
      show 0 < (stop - start).toNat
      omega
    have hcounter : ipTrialCounter = a - start := by
      show ((a - start).setWidth 40).setWidth 32 + BitVec.ofNat 32 0 = a - start
      rw [BitVec.setWidth_setWidth_of_le _ (by decide), BitVec.setWidth_eq]
      exact BitVec.add_zero _
    rw [if_pos hpos, hcounter, BitVec.umod_eq_of_lt, add_sub_word]
    rw [BitVec.lt_def]
    show (a - start).toNat < (stop - start).toNat
    omega

/-! ### What a search finds -/

section Found

variable {H : Host} {r : AddressRequest} {member : Json}

theorem foldl_laterMask (routes : List VirtualNetworkRoute) (ip : InetAddress) (bits : ℕ) :
    routes.foldl (H.laterMask ip) bits = bits ∨
      ∃ route ∈ routes, H.lanRouted6 ip route = true ∧
        route.target.netmaskBits = routes.foldl (H.laterMask ip) bits := by
  induction routes generalizing bits with
  | nil => exact Or.inl rfl
  | cons route routes ih =>
      rw [List.foldl_cons]
      rcases ih (H.laterMask ip bits route) with hsame | ⟨route', hmem, hrouted, hbits⟩
      · rw [hsame]
        unfold Host.laterMask
        split_ifs with hrouted
        · exact Or.inr ⟨route, List.mem_cons_self, hrouted, rfl⟩
        · exact Or.inl rfl
      · exact Or.inr ⟨route', List.mem_cons_of_mem _ hmem, hrouted, hbits⟩

/-- The netmask of a new IPv6 address is that of a route of the LAN. -/
theorem exists_lastLanMask {routes : List VirtualNetworkRoute} {ip : InetAddress}
    (h : 0 < H.lastLanMask routes ip) :
    ∃ route ∈ routes, route.via.isSet = false ∧ H.routed ip route = true ∧
      route.target.netmaskBits = H.lastLanMask routes ip := by
  rcases foldl_laterMask (H := H) routes ip 0 with hnone | ⟨route, hmem, hrouted, hbits⟩
  · exact absurd (hnone : H.lastLanMask routes ip = 0) h.ne'
  · unfold Host.lanRouted6 at hrouted
    rw [Bool.and_eq_true, Bool.and_eq_true, Bool.not_eq_true'] at hrouted
    exact ⟨route, hmem, hrouted.1.1, hrouted.2, hbits⟩

/-- The netmask of a new IPv4 address is that of a route. -/
theorem exists_firstMask {routes : List VirtualNetworkRoute} {ip : BitVec 32}
    (h : 0 < H.firstMask routes ip) :
    ∃ route ∈ routes, (route.target.netmaskBits : ℤ) = H.firstMask routes ip := by
  unfold Host.firstMask at h ⊢
  rcases hfind : routes.find? (H.masked ip) with _ | route
  · rw [hfind] at h
    exact absurd h (by decide)
  · exact ⟨route, List.mem_of_find?_eq_some hfind, rfl⟩

/-- **A new IPv6 address** is come to in a pool, and can be claimed. -/
theorem newIp6_some {ip : InetAddress} (h : newIp6 H r member = some ip) :
    autoAssigned (r.network.get "v6AssignMode") = true ∧
      ∃ pool ∈ pools r, ∃ s e, range6 H.text.toInetPton pool = some (s, e) ∧
        ∃ a, Tried6 s e a ∧ claimed6 H r (storedAssignments member) a = true ∧
          ip = .v6 a (UInt16.ofNat (H.lastLanMask r.routes (.v6 a 0))) := by
  unfold newIp6 at h
  split_ifs at h with hsearched
  rw [Bool.and_eq_true] at hsearched
  unfold searches at hsearched
  rw [Bool.and_eq_true] at hsearched
  obtain ⟨a, hfound, rfl⟩ := Option.map_eq_some_iff.mp h
  obtain ⟨pool, hpool, hsearch⟩ := List.exists_of_findSome?_eq_some hfound
  obtain ⟨range, hrange, hsearch⟩ := Option.bind_eq_some_iff.mp hsearch
  have hclaimed := List.find?_some hsearch
  obtain ⟨t, _, rfl⟩ := List.mem_map.mp (List.mem_of_find?_eq_some hsearch)
  exact ⟨hsearched.1.2, pool.1, List.fst_mem_of_mem_zipIdx hpool, range.1, range.2, hrange, _,
    tried6_trial6 _ _ _ _ _, hclaimed, rfl⟩

/-- **A new IPv4 address** is come to in a pool, and can be claimed. -/
theorem newIp4_some {ip : InetAddress} (h : newIp4 H r member = some ip) :
    autoAssigned (r.network.get "v4AssignMode") = true ∧
      ∃ pool ∈ pools r, ∃ start stop, range4 H.text.toInetPton pool = some (start, stop) ∧
        start ≠ 0 ∧ start ≤ stop ∧
        ∃ a, Tried4 start stop a ∧
          claimed4 H r (withNew H (storedAssignments member) (newIp6 H r member)) a = true ∧
          ip = .v4 a (UInt16.ofNat (H.firstMask r.routes a).toNat) := by
  unfold newIp4 at h
  split_ifs at h with hsearched
  rw [Bool.and_eq_true] at hsearched
  unfold searches at hsearched
  rw [Bool.and_eq_true] at hsearched
  obtain ⟨a, hfound, rfl⟩ := Option.map_eq_some_iff.mp h
  obtain ⟨pool, hpool, hsearch⟩ := List.exists_of_findSome?_eq_some hfound
  obtain ⟨range, hrange, hsearch⟩ := Option.bind_eq_some_iff.mp hsearch
  unfold search4 at hsearch
  split_ifs at hsearch with hends
  rw [not_or, BitVec.not_lt] at hends
  have hclaimed := List.find?_some hsearch
  obtain ⟨t, _, rfl⟩ := List.mem_map.mp (List.mem_of_find?_eq_some hsearch)
  exact ⟨hsearched.1.2, pool, hpool, range.1, range.2, hrange, hends.2, hends.1, _,
    tried4_trial4 hends.1 _ _, hclaimed, rfl⟩

/-- The text of a new address was not in the record before. -/
theorem text_newIps {ip : InetAddress} (h : ip ∈ newIps H r member) :
    ip.setPort 0 ∉ r.allocatedIps ∧
      ∀ j ∈ storedAssignments member, j.text ≠ some (ip.toIpString H.text) := by
  rcases List.mem_append.mp h with h6 | h4
  · obtain ⟨_, _, _, _, _, _, a, _, hclaimed, rfl⟩ := newIp6_some (Option.mem_toList.mp h6)
    exact isFree_iff.mp (claimed6_iff.mp hclaimed).2
  · obtain ⟨_, _, _, _, _, _, _, _, a, _, hclaimed, rfl⟩ := newIp4_some (Option.mem_toList.mp h4)
    obtain ⟨hfree, htext⟩ := isFree_iff.mp (claimed4_iff.mp hclaimed).2.2
    exact ⟨hfree, fun j hj => htext j (List.mem_append_left _ hj)⟩

end Found

/-! ### Networks that assign well -/

section Sound

variable (H : Host) (network : Json) (routes : List VirtualNetworkRoute)

/-- No IPv6 address that a search can come to and that the routes let pass is outside the pools or
in a route with a longer netmask. -/
def Sound6 : Prop :=
  autoAssigned (network.get "v6AssignMode") = true →
    ∀ pool ∈ (network.get "ipAssignmentPools").elements, ∀ s e,
      range6 H.text.toInetPton pool = some (s, e) →
      ∀ a, Tried6 s e a → 0 < H.lastLanMask routes (.v6 a 0) →
        (∃ pool ∈ (network.get "ipAssignmentPools").elements, InPool H pool (.v6 a 0)) ∧
          H.longestMask routes (.v6 a 0) = H.lastLanMask routes (.v6 a 0)

/-- No IPv4 address that a search can come to and that the routes let pass is routed only through a
gateway or in a route with a longer netmask. -/
def Sound4 : Prop :=
  autoAssigned (network.get "v4AssignMode") = true →
    ∀ pool ∈ (network.get "ipAssignmentPools").elements, ∀ start stop,
      range4 H.text.toInetPton pool = some (start, stop) → start ≠ 0 → start ≤ stop →
      ∀ a, Tried4 start stop a → a &&& 0xff ≠ 0xff → 0 < H.firstMask routes a →
        (∃ route ∈ routes, route.via.isSet = false ∧ H.routed (.v4 a 0) route = true) ∧
          H.longestMask routes (.v4 a 0) = H.firstMask routes a

end Sound

section Forward

variable {H : Host} {r : AddressRequest} {member member' : Json} {ips : List InetAddress}

/-- The managed addresses of a member without assignments are the new ones. -/
theorem managedIps_of_unassigned (h : Unassigned H r member)
    (hissues : Issues H r member ips member') : managedIps r member ips = newIps H r member := by
  have hmade : (madeIps r member).length ≤ 2 := length_madeIps_le
  have hnew : (newIps H r member).length ≤ 2 := length_newIps_le
  rw [managedIps_eq ips (issues_iff.mp hissues).1, keptIps_of_unassigned h, List.nil_append]
  apply List.take_of_length_le
  have hmax : maxAssignedAddresses = 32 := rfl
  omega

/-- An address with a netmask from the routes that is the longest is assigned as it should be. -/
theorem wellAssigned_of_longest (h : Unassigned H r member)
    (hissues : Issues H r member ips member') {ip : InetAddress} (hip : ip ∈ newIps H r member)
    (hpool : ∃ pool ∈ pools r, InPool H pool ip)
    (hlan : ∃ route ∈ r.routes, route.via.isSet = false ∧ H.routed (ip.setPort 0) route = true)
    (hlongest : H.longestMask r.routes (ip.setPort 0) = ip.netmaskBits) :
    WellAssigned H r member' ip where
  pool := hpool
  free := (text_newIps hip).1
  lan := hlan
  mask := by
    have hpos : 0 ≤ H.longestMask r.routes (ip.setPort 0) := hlongest ▸ Int.natCast_nonneg _
    obtain ⟨route, hmem, hrouted, hbits⟩ := Host.exists_longestMask hpos
    refine ⟨route, hmem, hrouted, ?_⟩
    rw [hlongest] at hbits
    exact (Int.ofNat_inj.mp hbits).symm
  stable member₂ hlater r₂ ips₂ member₃ hsetting hissues₂ :=
    stable_of_longest h ⟨ips, hissues⟩ hlater hsetting hissues₂ hip hlongest

theorem netmaskBits_v6 (a : BitVec 128) {n : ℕ} (hn : n < 65536) :
    (InetAddress.v6 a (UInt16.ofNat n)).netmaskBits = n := UInt16.toNat_ofNat_of_lt hn

theorem netmaskBits_v4 (a : BitVec 32) {n : ℕ} (hn : n < 65536) :
    (InetAddress.v4 a (UInt16.ofNat n)).netmaskBits = n := UInt16.toNat_ofNat_of_lt hn

theorem lastLanMask_lt {routes : List VirtualNetworkRoute} {ip : InetAddress}
    (h : 0 < H.lastLanMask routes ip) : H.lastLanMask routes ip < 65536 := by
  obtain ⟨route, _, _, _, hbits⟩ := exists_lastLanMask h
  exact hbits ▸ netmaskBits_lt route.target

theorem firstMask_lt {routes : List VirtualNetworkRoute} {a : BitVec 32}
    (h : 0 < H.firstMask routes a) : (H.firstMask routes a).toNat < 65536 := by
  obtain ⟨route, _, hbits⟩ := exists_firstMask h
  rw [← hbits, Int.toNat_natCast]
  exact netmaskBits_lt route.target

/-- **A sound network assigns well.** -/
theorem assignsWell_of_sound {network : Json} {routes : List VirtualNetworkRoute}
    (h6 : Sound6 H network routes) (h4 : Sound4 H network routes) :
    AssignsWell H network routes := by
  rintro r member ips member' rfl rfl hunassigned hissues ip hip
  rw [managedIps_of_unassigned hunassigned hissues] at hip
  rcases List.mem_append.mp hip with hnew | hnew
  · obtain ⟨hmode, pool, hpool, s, e, hrange, a, htried, hclaimed, rfl⟩ :=
      newIp6_some (Option.mem_toList.mp hnew)
    have hlan := (claimed6_iff.mp hclaimed).1
    obtain ⟨hin, hlongest⟩ := h6 hmode pool hpool s e hrange a htried hlan
    obtain ⟨route, hmem, hvia, hrouted, _⟩ := exists_lastLanMask hlan
    refine wellAssigned_of_longest hunassigned hissues hip hin ⟨route, hmem, hvia, hrouted⟩ ?_
    rw [netmaskBits_v6 a (lastLanMask_lt hlan)]
    exact hlongest
  · obtain ⟨hmode, pool, hpool, start, stop, hrange, hpos, hends, a, htried, hclaimed, rfl⟩ :=
      newIp4_some (Option.mem_toList.mp hnew)
    obtain ⟨hlast, hfirst, _⟩ := claimed4_iff.mp hclaimed
    obtain ⟨hlan, hlongest⟩ :=
      h4 hmode pool hpool start stop hrange hpos hends a htried hlast hfirst
    have hin : InPool H pool (.v4 a (UInt16.ofNat (H.firstMask r.routes a).toNat)) := by
      refine ⟨start, stop, hrange, ?_⟩
      rcases htried with ⟨rfl, rfl⟩ | ⟨hstart, hstop⟩
      · exact ⟨BitVec.le_refl _, BitVec.le_refl _⟩
      · exact ⟨hstart, BitVec.le_of_lt hstop⟩
    refine wellAssigned_of_longest hunassigned hissues hip ⟨pool, hpool, hin⟩ hlan ?_
    rw [netmaskBits_v4 a (firstMask_lt hfirst), Int.toNat_of_nonneg hfirst.le]
    exact hlongest

end Forward

/-! ### Networks that do not -/

section Backward

/-- All addresses but one can be allocated. -/
theorem exists_allBut (a : InetAddress) :
    ∃ allocated : Finset InetAddress, ∀ x, x ∉ allocated ↔ x = a := by
  have hword : ∀ w : ℕ, Finite (BitVec w) := fun w =>
    Finite.of_injective BitVec.toFin fun x y h => BitVec.eq_of_toFin_eq h
  have hport : Finite UInt16 := by
    have := hword 16
    exact Finite.of_injective UInt16.toBitVec fun x y h => UInt16.toBitVec_inj.mp h
  have hfinite : Finite InetAddress := by
    have h32 := hword 32
    have h128 := hword 128
    refine Finite.of_surjective
      (fun o : Option ((BitVec 32 × UInt16) ⊕ (BitVec 128 × UInt16)) =>
        o.elim InetAddress.nil
          (Sum.elim (fun x => InetAddress.v4 x.1 x.2) fun x => InetAddress.v6 x.1 x.2)) ?_
    intro x
    cases x with
    | nil => exact ⟨none, rfl⟩
    | v4 ip port => exact ⟨some (.inl (ip, port)), rfl⟩
    | v6 ip port => exact ⟨some (.inr (ip, port)), rfl⟩
  refine ⟨(Set.toFinite {x | x ≠ a}).toFinset, fun x => ?_⟩
  rw [Set.Finite.mem_toFinset]
  exact not_not

variable {H : Host} {r : AddressRequest}

theorem toIpString_setPort (a : InetAddress) (port : UInt16) :
    (a.setPort port).toIpString H.text = a.toIpString H.text := by
  cases a <;> rfl

/-- **If the only address that is free is assigned as it should be**, it has the longest netmask. -/
theorem longest_of_wellAssigned {ip : InetAddress} (hip : ip.isSet = true)
    (honly : ∀ x, x ∉ r.allocatedIps ↔ x = ip.setPort 0)
    (hnew : ip ∈ newIps H r (.object []))
    (h : WellAssigned H r (recordAfter H r (.object [])) ip) :
    H.longestMask r.routes (ip.setPort 0) = ip.netmaskBits := by
  have hstored : storedAssignments (recordAfter H r (.object [])) =
      (newIps H r (.object [])).map fun ip => .string (ip.toIpString H.text) := by
    rw [stored_recordAfter, assignmentsAfter_eq]
    rfl
  have hissues : Issues H r (recordAfter H r (.object [])) _ _ :=
    issues_iff.mpr ⟨rfl, rfl, rfl⟩
  have hagain := h.stable _ .refl r _ _ rfl hissues
  rw [managedIps_eq _ rfl] at hagain
  rcases List.mem_append.mp (List.mem_of_mem_take hagain) with hkept | hsecond
  · obtain ⟨j, hj, hissued⟩ := List.mem_filterMap.mp hkept
    rw [hstored] at hj
    obtain ⟨x, hx, rfl⟩ := List.mem_map.mp hj
    -- the one address that is stored is the one that was free
    have hsame : x.setPort 0 = ip.setPort 0 := (honly _).mp (text_newIps hx).1
    rw [← toIpString_setPort x 0, hsame, toIpString_setPort] at hissued
    exact longest_of_storedIp hip hissued
  · refine absurd rfl ((text_newIps hsecond).2 (.string (ip.toIpString H.text)) ?_)
    rw [hstored]
    exact List.mem_map.mpr ⟨ip, hnew, rfl⟩

/-- A search in IPv4 pools that has something to find. -/
theorem isSome_find4 {ipAssignments : List Json} {pool : Json} (hpool : pool ∈ pools r)
    {start stop : BitVec 32} (hrange : range4 H.text.toInetPton pool = some (start, stop))
    (hpos : start ≠ 0) (hends : start ≤ stop)
    (hclaimed : claimed4 H r ipAssignments (trial4 start stop r.identity 0) = true) :
    (find4 H r ipAssignments).isSome = true := by
  unfold find4
  rw [Option.isSome_map, List.findSome?_isSome_iff]
  refine ⟨pool, hpool, ?_⟩
  rw [hrange, Option.bind_some]
  unfold search4
  rw [if_neg (not_or.mpr ⟨BitVec.not_lt.mpr hends, hpos⟩), List.find?_isSome]
  have hfirst : 0 ∈ trials4 start stop := by
    refine mem_takeWhile_range.mpr ⟨by decide, fun k hk => ?_⟩
    obtain rfl := Nat.le_zero.mp hk
    refine decide_eq_true ?_
    show start + BitVec.ofNat 32 0 ≤ stop
    rw [BitVec.add_zero]
    exact hends
  exact ⟨_, List.mem_map.mpr ⟨0, hfirst, rfl⟩, hclaimed⟩

/-- A search in IPv6 pools that has something to find. -/
theorem isSome_find6 {ipAssignments : List Json} {pool : Json} (hpool : pool ∈ pools r)
    {s e : BitVec 128} (hrange : range6 H.text.toInetPton pool = some (s, e)) {t : ℕ}
    (ht : t < 1000)
    (hclaimed : ∀ p, claimed6 H r ipAssignments (trial6 s e r.identity (r.random p) t) = true) :
    (find6 H r ipAssignments).isSome = true := by
  obtain ⟨p, hp⟩ := List.getElem?_of_mem hpool
  unfold find6
  rw [Option.isSome_map, List.findSome?_isSome_iff]
  refine ⟨(pool, p), List.mk_mem_zipIdx_iff_getElem?.mpr hp, ?_⟩
  rw [hrange, Option.bind_some]
  unfold search6
  rw [List.find?_isSome]
  exact ⟨_, List.mem_map.mpr ⟨t, List.mem_range.mpr ht, rfl⟩, hclaimed p⟩

variable {network : Json} {routes : List VirtualNetworkRoute}

/-- A pool is one of an array. -/
theorem isArray_of_mem {j pool : Json} (h : pool ∈ j.elements) : j.isArray = true := by
  cases j with
  | array l => rfl
  | _ => exact absurd h List.not_mem_nil

/-- A member whose record is empty is assigned addresses in a mode. -/
theorem searches_empty {mode : String} {pool : Json} (hpool : pool ∈ pools r)
    (hmode : autoAssigned (r.network.get mode) = true) : searches r (.object []) mode = true := by
  unfold searches
  rw [isArray_of_mem hpool, hmode]
  rfl

/-- The only address that is free is assigned well, and so has the longest netmask. -/
theorem wellAssigned_only (h : AssignsWell H network routes) (hnetwork : r.network = network)
    (hroutes : r.routes = routes) {ip : InetAddress} (hip : ip.isSet = true)
    (honly : ∀ x, x ∉ r.allocatedIps ↔ x = ip.setPort 0) (hnew : ip ∈ newIps H r (.object [])) :
    WellAssigned H r (recordAfter H r (.object [])) ip ∧
      H.longestMask r.routes (ip.setPort 0) = ip.netmaskBits := by
  have hunassigned : Unassigned H r (.object []) := fun j hj => absurd hj List.not_mem_nil
  have hissues : Issues H r (.object []) _ (recordAfter H r (.object [])) :=
    issues_iff.mpr ⟨rfl, rfl, rfl⟩
  have hwell := h r (.object []) _ _ hnetwork hroutes hunassigned hissues ip (by
    rw [managedIps_of_unassigned hunassigned hissues]
    exact hnew)
  exact ⟨hwell, longest_of_wellAssigned hip honly hnew hwell⟩

/-- A network that assigns well is sound in its IPv6 addresses. -/
theorem sound6_of_assignsWell (h : AssignsWell H network routes) : Sound6 H network routes := by
  intro hmode pool hpool s e hrange a htried hlan
  obtain ⟨allocated, honly⟩ := exists_allBut (.v6 a 0)
  obtain ⟨identity, random, t, ht, htrial⟩ := exists_trial6 htried
  let r : AddressRequest :=
    { nwid := 0, identity := identity, network := network, routes := routes,
      allocatedIps := allocated, random := fun _ => random }
  have hclaimed : claimed6 H r [] a = true :=
    claimed6_iff.mpr ⟨hlan,
      isFree_iff.mpr ⟨(honly _).mpr rfl, fun j hj => absurd hj List.not_mem_nil⟩⟩
  have hfind : (find6 H r []).isSome = true :=
    isSome_find6 hpool hrange ht fun _ => by
      show claimed6 H r [] (trial6 s e identity random t) = true
      rw [htrial]
      exact hclaimed
  obtain ⟨ip, hip⟩ := Option.isSome_iff_exists.mp hfind
  have hsearched : newIp6 H r (.object []) = find6 H r [] := by
    unfold newIp6
    rw [searches_empty hpool hmode]
    rfl
  rw [← hsearched] at hip
  obtain ⟨_, _, _, _, _, _, x, _, hx, rfl⟩ := newIp6_some hip
  obtain rfl : x = a :=
    (InetAddress.v6.inj ((honly _).mp (isFree_iff.mp (claimed6_iff.mp hx).2).1)).1
  have hnew := List.mem_append_left (newIp4 H r (.object [])).toList (Option.mem_toList.mpr hip)
  obtain ⟨hwell, hlongest⟩ := wellAssigned_only h rfl rfl rfl honly hnew
  rw [netmaskBits_v6 x (lastLanMask_lt hlan)] at hlongest
  exact ⟨hwell.pool, hlongest⟩

/-- A network that assigns well is sound in its IPv4 addresses. -/
theorem sound4_of_assignsWell (h : AssignsWell H network routes) : Sound4 H network routes := by
  intro hmode pool hpool start stop hrange hpos hends a htried hlast hfirst
  obtain ⟨allocated, honly⟩ := exists_allBut (.v4 a 0)
  obtain ⟨identity, htrial⟩ := exists_trial4 htried
  let r : AddressRequest :=
    { nwid := 0, identity := identity, network := network, routes := routes,
      allocatedIps := allocated, random := fun _ _ => (0, 0) }
  -- no IPv6 address is free
  have hnone : newIp6 H r (.object []) = none := by
    rcases h6 : newIp6 H r (.object []) with _ | ip
    · rfl
    · obtain ⟨_, _, _, _, _, _, x, _, hx, rfl⟩ := newIp6_some h6
      cases (honly _).mp (isFree_iff.mp (claimed6_iff.mp hx).2).1
  have hclaimed : claimed4 H r [] a = true :=
    claimed4_iff.mpr ⟨hlast, hfirst,
      isFree_iff.mpr ⟨(honly _).mpr rfl, fun j hj => absurd hj List.not_mem_nil⟩⟩
  have hfind : (find4 H r []).isSome = true :=
    isSome_find4 hpool hrange hpos hends (by
      show claimed4 H r [] (trial4 start stop identity 0) = true
      rw [htrial]
      exact hclaimed)
  obtain ⟨ip, hip⟩ := Option.isSome_iff_exists.mp hfind
  have hsearched : newIp4 H r (.object []) = find4 H r [] := by
    unfold newIp4
    rw [searches_empty hpool hmode, hnone]
    rfl
  rw [← hsearched] at hip
  obtain ⟨_, _, _, _, _, _, _, _, x, _, hx, rfl⟩ := newIp4_some hip
  obtain rfl : x = a :=
    (InetAddress.v4.inj ((honly _).mp (isFree_iff.mp (claimed4_iff.mp hx).2.2).1)).1
  have hnew := List.mem_append_right (newIp6 H r (.object [])).toList (Option.mem_toList.mpr hip)
  obtain ⟨hwell, hlongest⟩ := wellAssigned_only h rfl rfl rfl honly hnew
  rw [netmaskBits_v4 x (firstMask_lt hfirst), Int.toNat_of_nonneg hfirst.le] at hlongest
  exact ⟨hwell.lan, hlongest⟩

end Backward

/-- **Addresses are assigned as they should be** in a network exactly if it is sound. -/
theorem assignments_stable_iff (H : Host) (network : Json) (routes : List VirtualNetworkRoute) :
    AssignsWell H network routes ↔ Sound6 H network routes ∧ Sound4 H network routes :=
  ⟨fun h => ⟨sound6_of_assignsWell h, sound4_of_assignsWell h⟩,
    fun h => assignsWell_of_sound h.1 h.2⟩

/-- A pool of one address. -/
def singleAddress : Json :=
  .object [("ipRangeEnd", .string "10.0.0.1"), ("ipRangeStart", .string "10.0.0.1")]

/-- A request in a network that has a route only through a gateway. -/
def gatewayRequest : AddressRequest where
  nwid := 0x8056c2e21c000001
  identity := 0x1234567890
  network := .object [("ipAssignmentPools", .array [singleAddress]),
    ("v4AssignMode", .object [("zt", .boolean true)])]
  routes := [⟨.v4 0x0a000000 24, .v4 0x0a010001 0, 0, 0⟩]
  allocatedIps := ∅
  random _ _ := (0, 0)

/-- An address is assigned that only a gateway leads to. -/
theorem gateway_assigned :
    ¬∀ (H : Host) (network : Json) (routes : List VirtualNetworkRoute),
      AssignsWell H network routes := by
  intro h
  have hnew : newIps dottedHost gatewayRequest (.object []) = [.v4 0x0a000001 24] := by
    decide +kernel
  have hvia : ∀ route ∈ gatewayRequest.routes, route.via.isSet = true := by decide
  generalize gatewayRequest = r at hnew hvia
  have hunassigned : Unassigned dottedHost r (.object []) :=
    fun j hj => absurd hj List.not_mem_nil
  have hissues : Issues dottedHost r (.object []) _ (recordAfter dottedHost r (.object [])) :=
    issues_iff.mpr ⟨rfl, rfl, rfl⟩
  have hwell := h dottedHost r.network r.routes r _ _ _ rfl rfl hunassigned hissues
    (.v4 0x0a000001 24) (by
      rw [managedIps_of_unassigned hunassigned hissues, hnew]
      exact List.mem_singleton_self _)
  obtain ⟨route, hmem, hlan, _⟩ := hwell.lan
  rw [hvia route hmem] at hlan
  cases hlan

end ZGalaxy
