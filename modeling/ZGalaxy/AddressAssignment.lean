/-
ZGalaxy/AddressAssignment.lean

The addresses that the controller gives a member.

They come from four sources, in this order: the addresses that are made from the ids of network and
member, the assignments stored in the record of the member that some route contains, a new IPv6
address and a new IPv4 address.  A new address is searched for in the pools of the network, when the
member has none of its family: the first of at most a thousand trials that is routed, not allocated
and not assigned to the member already.  The three sources that look at routes each do it in a way
of their own (`longestMask`, `lastLanMask`, `firstMask`).

What the platform brings is a parameter (`Host`): the texts of addresses, and what comes of a shift
by too many bits.  The random numbers of the IPv6 search are drawn anew in each request.

Main result: `issueAddresses_eq`, that the addresses issued are the first 32 of the four sources one
after another, and that nothing is written outside an array.
-/
import ZGalaxy.IssuedLists
import ZGalaxy.Prefixes

namespace ZGalaxy

open BoundedWrites

/-- What the platform brings: texts of addresses, containment of addresses in networks, and the
masks that come of a shift by 32 bits or more, or by a negative number. -/
structure Host where
  text : InetText
  lawful : text.Lawful
  containment : InetAddress.Containment
  family : ∀ net addr, containment.contains net addr = true → InetAddress.SameFamily net addr
  wildMask : ℕ → BitVec 32

/-- A member in a network, with the routes of its configuration. -/
structure MemberSetting where
  nwid : NetworkId
  /-- the address of the member -/
  identity : Address
  network : Json
  routes : List VirtualNetworkRoute

/-- What the addresses of a member depend on, besides its record. -/
structure AddressRequest extends MemberSetting where
  allocatedIps : Finset InetAddress
  /-- the numbers drawn, by pool and trial -/
  random : ℕ → ℕ → BitVec 64 × BitVec 64

/-! ### Routes -/

namespace Host

variable (H : Host)

/-- A route whose target contains an address. -/
def routed (ip : InetAddress) (route : VirtualNetworkRoute) : Bool :=
  H.containment.contains route.target ip

/-- A turn of the loop for stored assignments. -/
def longerMask (ip : InetAddress) (bits : ℤ) (route : VirtualNetworkRoute) : ℤ :=
  if H.routed ip route ∧ bits < route.target.netmaskBits then route.target.netmaskBits else bits

/-- The longest netmask of the routes that contain an address, or -1. -/
def longestMask (routes : List VirtualNetworkRoute) (ip : InetAddress) : ℤ :=
  routes.foldl (H.longerMask ip) (-1)

/-- A route of the LAN that contains an IPv6 address. -/
def lanRouted6 (ip : InetAddress) (route : VirtualNetworkRoute) : Bool :=
  !route.via.isSet && route.target.isV6 && H.routed ip route

/-- A turn of the loop for new IPv6 addresses. -/
def laterMask (ip : InetAddress) (bits : ℕ) (route : VirtualNetworkRoute) : ℕ :=
  if H.lanRouted6 ip route then route.target.netmaskBits else bits

/-- The netmask of the last route of the LAN that contains an IPv6 address, or 0. -/
def lastLanMask (routes : List VirtualNetworkRoute) (ip : InetAddress) : ℕ :=
  routes.foldl (H.laterMask ip) 0

/-- `0xffffffff << (32 - bits)`. -/
def mask (bits : ℕ) : BitVec 32 :=
  if 1 ≤ bits ∧ bits ≤ 32 then BitVec.allOnes 32 <<< (32 - bits) else H.wildMask bits

/-- The masked address is the target of a route. -/
def masked (ip : BitVec 32) (route : VirtualNetworkRoute) : Bool :=
  match route.target with
  | .v4 targetIp targetBits => ip &&& H.mask targetBits.toNat == targetIp
  | _ => false

/-- The netmask of the first route whose target is the masked address, or -1. -/
def firstMask (routes : List VirtualNetworkRoute) (ip : BitVec 32) : ℤ :=
  ((routes.find? (H.masked ip)).map fun route => (route.target.netmaskBits : ℤ)).getD (-1)

variable {H}

/-- The longest netmask is that of a route, or what was there before, and none is longer. -/
theorem foldl_longerMask (routes : List VirtualNetworkRoute) (ip : InetAddress) (bits : ℤ) :
    bits ≤ routes.foldl (H.longerMask ip) bits ∧
      (∀ route ∈ routes, H.routed ip route = true →
        (route.target.netmaskBits : ℤ) ≤ routes.foldl (H.longerMask ip) bits) ∧
      (routes.foldl (H.longerMask ip) bits = bits ∨
        ∃ route ∈ routes, H.routed ip route = true ∧
          (route.target.netmaskBits : ℤ) = routes.foldl (H.longerMask ip) bits) := by
  -- on the routes, each of which takes the longer of two masks
  induction routes generalizing bits with
  | nil => exact ⟨le_rfl, fun route h => absurd h List.not_mem_nil, Or.inl rfl⟩
  | cons route routes ih =>
      rw [List.foldl_cons]
      obtain ⟨hle, hall, hsome⟩ := ih (H.longerMask ip bits route)
      have hturn : bits ≤ H.longerMask ip bits route ∧
          (H.routed ip route = true →
            (route.target.netmaskBits : ℤ) ≤ H.longerMask ip bits route) ∧
          (H.longerMask ip bits route = bits ∨ H.routed ip route = true ∧
            (route.target.netmaskBits : ℤ) = H.longerMask ip bits route) := by
        unfold longerMask
        split_ifs with h
        · exact ⟨h.2.le, fun _ => le_rfl, Or.inr ⟨h.1, rfl⟩⟩
        · exact ⟨le_rfl, fun hrouted => not_lt.mp fun hlt => h ⟨hrouted, hlt⟩, Or.inl rfl⟩
      refine ⟨hturn.1.trans hle, ?_, ?_⟩
      · intro route' hmem hrouted
        rcases List.mem_cons.mp hmem with rfl | hmem
        · exact (hturn.2.1 hrouted).trans hle
        · exact hall route' hmem hrouted
      · rcases hsome with hsame | ⟨route', hmem, hrouted, hbits⟩
        · rw [hsame]
          rcases hturn.2.2 with hkept | ⟨hrouted, hbits⟩
          · exact Or.inl hkept
          · exact Or.inr ⟨route, List.mem_cons_self, hrouted, hbits⟩
        · exact Or.inr ⟨route', List.mem_cons_of_mem _ hmem, hrouted, hbits⟩

theorem exists_longestMask {routes : List VirtualNetworkRoute} {ip : InetAddress}
    (h : 0 ≤ H.longestMask routes ip) :
    ∃ route ∈ routes, H.routed ip route = true ∧
      (route.target.netmaskBits : ℤ) = H.longestMask routes ip := by
  rcases (foldl_longerMask (H := H) routes ip (-1)).2.2 with hnone | hsome
  · have hneg : H.longestMask routes ip = -1 := hnone
    omega
  · exact hsome

/-- What a route contains is an address. -/
theorem isSet_of_routed {ip : InetAddress} {route : VirtualNetworkRoute}
    (h : H.routed ip route = true) : ip.isSet = true := by
  have hfamily := H.family _ _ h
  cases ip with
  | nil =>
      cases htarget : route.target <;> rw [htarget] at hfamily <;> exact hfamily.elim
  | v4 a port => rfl
  | v6 a port => rfl

end Host

/-! ### Pools -/

/-- The ends of a pool, as they are read. -/
def poolEnds (pton : InetPton) (pool : Json) : InetAddress × InetAddress :=
  if pool.isObject then
    (InetAddress.ofText pton (jsonString (pool.get "ipRangeStart") ""),
      InetAddress.ofText pton (jsonString (pool.get "ipRangeEnd") ""))
  else (.nil, .nil)

/-- The ends of an IPv6 pool. -/
def range6 (pton : InetPton) (pool : Json) : Option (BitVec 128 × BitVec 128) :=
  match poolEnds pton pool with
  | (.v6 start _, .v6 stop _) => some (start, stop)
  | _ => none

/-- The ends of an IPv4 pool. -/
def range4 (pton : InetPton) (pool : Json) : Option (BitVec 32 × BitVec 32) :=
  match poolEnds pton pool with
  | (.v4 start _, .v4 stop _) => some (start, stop)
  | _ => none

/-- The upper 64 bits of an IPv6 address. -/
def upper (ip : BitVec 128) : BitVec 64 := ip.extractLsb' 64 64

/-- The lower 64 bits of an IPv6 address. -/
def lower (ip : BitVec 128) : BitVec 64 := ip.extractLsb' 0 64

/-- How far into a range of 64 bits a random number leads. -/
def randomOffset (s e x : BitVec 64) : BitVec 64 := if s < e then x % (e - s) else 0

/-- Whether the address of a member can be crammed into the lower 64 bits of a range. -/
def crammed (s e : BitVec 128) : Prop :=
  lower s < lower e ∧ 0xffffffffff ≤ lower e - lower s

instance (s e : BitVec 128) : Decidable (crammed s e) := inferInstanceAs (Decidable (_ ∧ _))

/-- The address that a trial in an IPv6 pool comes to. -/
def trial6 (s e : BitVec 128) (identity : Address) (random : ℕ → BitVec 64 × BitVec 64)
    (trialCount : ℕ) : BitVec 128 :=
  if trialCount = 0 ∧ crammed s e then upper s ++ (lower s + identity.setWidth 64)
  else
    (upper s + randomOffset (upper s) (upper e) (random trialCount).1)
      ++ (lower s + randomOffset (lower s) (lower e) (random trialCount).2)

/-- The trials in an IPv4 pool: the loop ends behind the end of the pool, or after a thousand. -/
def trials4 (start stop : BitVec 32) : List ℕ :=
  (List.range 1000).takeWhile fun trialCount => start + BitVec.ofNat 32 trialCount ≤ stop

/-- The address that a trial in an IPv4 pool comes to. -/
def trial4 (start stop : BitVec 32) (identity : Address) (trialCount : ℕ) : BitVec 32 :=
  let ipRangeLen := stop - start
  let ipTrialCounter := identity.setWidth 32 + BitVec.ofNat 32 trialCount
  if 0 < ipRangeLen then start + ipTrialCounter % ipRangeLen else start

/-! ### Searching -/

section Searching

variable (H : Host) (r : AddressRequest)

/-- The address is not allocated in the network, and not assigned to the member. -/
def isFree (ipAssignments : List Json) (ip : InetAddress) : Bool :=
  decide (ip ∉ r.allocatedIps)
    && !ipAssignments.any fun j => j.text == some (ip.toIpString H.text)

/-- An IPv6 address that can be assigned. -/
def claimed6 (ipAssignments : List Json) (ip : BitVec 128) : Bool :=
  decide (0 < H.lastLanMask r.routes (.v6 ip 0)) && isFree H r ipAssignments (.v6 ip 0)

/-- An IPv4 address that can be assigned: it does not end in 255. -/
def claimed4 (ipAssignments : List Json) (ip : BitVec 32) : Bool :=
  ip &&& 0xff != 0xff && decide (0 < H.firstMask r.routes ip) && isFree H r ipAssignments (.v4 ip 0)

/-- The search in an IPv6 pool. -/
def search6 (ipAssignments : List Json) (s e : BitVec 128)
    (random : ℕ → BitVec 64 × BitVec 64) : Option (BitVec 128) :=
  ((List.range 1000).map (trial6 s e r.identity random)).find? (claimed6 H r ipAssignments)

/-- The search in an IPv4 pool. -/
def search4 (ipAssignments : List Json) (start stop : BitVec 32) : Option (BitVec 32) :=
  if stop < start ∨ start = 0 then none
  else ((trials4 start stop).map (trial4 start stop r.identity)).find? (claimed4 H r ipAssignments)

/-- The pools of a network. -/
def pools : List Json := (r.network.get "ipAssignmentPools").elements

/-- A new IPv6 address, with its netmask. -/
def find6 (ipAssignments : List Json) : Option InetAddress :=
  ((pools r).zipIdx.findSome? fun pool =>
    (range6 H.text.toInetPton pool.1).bind fun range =>
      search6 H r ipAssignments range.1 range.2 (r.random pool.2)).map fun ip =>
    .v6 ip (UInt16.ofNat (H.lastLanMask r.routes (.v6 ip 0)))

/-- A new IPv4 address, with its netmask. -/
def find4 (ipAssignments : List Json) : Option InetAddress :=
  ((pools r).findSome? fun pool =>
    (range4 H.text.toInetPton pool).bind fun range =>
      search4 H r ipAssignments range.1 range.2).map fun ip =>
    .v4 ip (UInt16.ofNat (H.firstMask r.routes ip).toNat)

end Searching

/-! ### Issuing -/

/-- Where the loop over the stored assignments stands. -/
structure Held where
  staticIps : List InetAddress
  have4 : Bool
  have6 : Bool

/-- An address is issued if there is room. -/
def issueIp (staticIps : List InetAddress) (ip : InetAddress) : Build (List InetAddress) :=
  if staticIps.length < maxAssignedAddresses then push ConfigArray.size .staticIps staticIps ip
  else pure staticIps

/-- Whether new addresses are assigned in a mode. -/
def autoAssigned (mode : Json) : Bool := mode.isObject && jsonBool (mode.get "zt") false

/-- The member gets no addresses but those stored in its record. -/
def noAutoAssignIps (member : Json) : Bool := jsonBool (member.get "noAutoAssignIps") false

/-- An address that is made from ids, with the flag for emulating neighbour discovery. -/
def issueMade (wanted : Bool) (ip : InetAddress) (s : List InetAddress × UInt64) :
    Build (List InetAddress × UInt64) :=
  if wanted && s.1.length < maxAssignedAddresses then do
    let staticIps ← push ConfigArray.size .staticIps s.1 ip
    pure (staticIps, s.2 ||| flagEnableIpv6NdpEmulation)
  else pure s

section Issuing

variable (H : Host) (r : AddressRequest)

/-- The addresses that are made from ids. -/
def issueAllMade (member : Json) (flags : UInt64) : Build (List InetAddress × UInt64) :=
  let v6AssignMode := r.network.get "v6AssignMode"
  if v6AssignMode.isObject && !noAutoAssignIps member then do
    let s ← issueMade (jsonBool (v6AssignMode.get "rfc4193") false)
      (InetAddress.makeIpv6rfc4193 r.nwid r.identity) ([], flags)
    issueMade (jsonBool (v6AssignMode.get "6plane") false)
      (InetAddress.makeIpv66plane r.nwid r.identity) s
  else pure ([], flags)

/-- An assignment stored in the record: it is issued with the longest netmask of a route that
contains it. -/
def issueStored (held : Held) (j : Json) : Build Held :=
  match j.text with
  | none => pure held
  | some ips =>
      let ip := InetAddress.ofText H.text.toInetPton ips
      let routedNetmaskBits := H.longestMask r.routes ip
      if 0 ≤ routedNetmaskBits then do
        let staticIps ← issueIp held.staticIps (ip.setPort (UInt16.ofNat routedNetmaskBits.toNat))
        pure ⟨staticIps, held.have4 || ip.isV4, held.have6 || ip.isV6⟩
      else pure held

/-- The address of a search, if one is wanted. -/
def issueNew (staticIps : List InetAddress) (new : Option InetAddress) :
    Build (List InetAddress) :=
  new.elim (pure staticIps) (issueIp staticIps)

/-- The assignments with the text of a new address. -/
def withNew (ipAssignments : List Json) (new : Option InetAddress) : List Json :=
  ipAssignments ++ (new.map fun ip => Json.string (ip.toIpString H.text)).toList

/-- The addresses: those issued, the flags, and the record of the member with what is new in it. -/
def issueAddresses (member : Json) (flags : UInt64) :
    Build (List InetAddress × UInt64 × Json) := do
  let made ← issueAllMade r member flags
  let ipAssignments := (member.get "ipAssignments").elements
  let held ← ipAssignments.foldlM (issueStored H r) ⟨made.1, false, false⟩
  let searched := (r.network.get "ipAssignmentPools").isArray && !noAutoAssignIps member
  let new6 :=
    if searched && autoAssigned (r.network.get "v6AssignMode") && !held.have6 then
      find6 H r ipAssignments
    else none
  let staticIps ← issueNew held.staticIps new6
  let ipAssignments := withNew H ipAssignments new6
  let new4 :=
    if searched && autoAssigned (r.network.get "v4AssignMode") && !held.have4 then
      find4 H r ipAssignments
    else none
  let staticIps ← issueNew staticIps new4
  let ipAssignments := withNew H ipAssignments new4
  pure (staticIps, made.2,
    if new6.isSome || new4.isSome then member.set "ipAssignments" (.array ipAssignments)
    else member)

end Issuing

/-! ### The four sources -/

section Sources

variable (H : Host) (r : AddressRequest) (member : Json)

/-- The addresses made from ids. -/
def madeIps : List InetAddress :=
  let v6AssignMode := r.network.get "v6AssignMode"
  if v6AssignMode.isObject && !noAutoAssignIps member then
    (if jsonBool (v6AssignMode.get "rfc4193") false then
      [InetAddress.makeIpv6rfc4193 r.nwid r.identity] else [])
    ++ (if jsonBool (v6AssignMode.get "6plane") false then
      [InetAddress.makeIpv66plane r.nwid r.identity] else [])
  else []

/-- What is issued of an assignment stored in the record. -/
def storedIp (j : Json) : Option InetAddress :=
  j.text.bind fun ips =>
    let ip := InetAddress.ofText H.text.toInetPton ips
    if 0 ≤ H.longestMask r.routes ip then
      some (ip.setPort (UInt16.ofNat (H.longestMask r.routes ip).toNat))
    else none

/-- The assignments stored in a record. -/
def storedAssignments : List Json := (member.get "ipAssignments").elements

/-- The stored assignments that are issued. -/
def keptIps : List InetAddress := (storedAssignments member).filterMap (storedIp H r)

/-- Whether new addresses are searched for in a mode. -/
def searches (mode : String) : Bool :=
  (r.network.get "ipAssignmentPools").isArray && !noAutoAssignIps member
    && autoAssigned (r.network.get mode)

/-- The new IPv6 address. -/
def newIp6 : Option InetAddress :=
  if searches r member "v6AssignMode" && !(keptIps H r member).any InetAddress.isV6 then
    find6 H r (storedAssignments member)
  else none

/-- The new IPv4 address. -/
def newIp4 : Option InetAddress :=
  if searches r member "v4AssignMode" && !(keptIps H r member).any InetAddress.isV4 then
    find4 H r (withNew H (storedAssignments member) (newIp6 H r member))
  else none

/-- The addresses searched for. -/
def newIps : List InetAddress := (newIp6 H r member).toList ++ (newIp4 H r member).toList

/-- All addresses of a member, in the order in which they are issued. -/
def memberIps : List InetAddress := madeIps r member ++ keptIps H r member ++ newIps H r member

/-- The assignments stored in the record afterwards. -/
def assignmentsAfter : List Json :=
  withNew H (withNew H (storedAssignments member) (newIp6 H r member)) (newIp4 H r member)

/-- The record afterwards. -/
def recordAfter : Json :=
  if (newIp6 H r member).isSome || (newIp4 H r member).isSome then
    member.set "ipAssignments" (.array (assignmentsAfter H r member))
  else member

end Sources

section Spec

variable {H : Host} {r : AddressRequest} {member : Json}

theorem isFree_iff {ipAssignments : List Json} {ip : InetAddress} :
    isFree H r ipAssignments ip = true ↔
      ip ∉ r.allocatedIps ∧ ∀ j ∈ ipAssignments, j.text ≠ some (ip.toIpString H.text) := by
  unfold isFree
  rw [Bool.and_eq_true, decide_eq_true_iff, Bool.not_eq_true', List.any_eq_false]
  refine and_congr_right fun _ => forall₂_congr fun j _ => ?_
  rw [beq_iff_eq]

theorem claimed6_iff {ipAssignments : List Json} {a : BitVec 128} :
    claimed6 H r ipAssignments a = true ↔
      0 < H.lastLanMask r.routes (.v6 a 0) ∧ isFree H r ipAssignments (.v6 a 0) = true := by
  unfold claimed6
  rw [Bool.and_eq_true, decide_eq_true_iff]

theorem claimed4_iff {ipAssignments : List Json} {a : BitVec 32} :
    claimed4 H r ipAssignments a = true ↔
      a &&& 0xff ≠ 0xff ∧ 0 < H.firstMask r.routes a ∧
        isFree H r ipAssignments (.v4 a 0) = true := by
  unfold claimed4
  rw [Bool.and_eq_true, Bool.and_eq_true, bne_iff_ne, decide_eq_true_iff, and_assoc]

/-- An address behind those that are issued. -/
theorem issueIp_take (xs : List InetAddress) (ip : InetAddress) :
    issueIp (xs.take maxAssignedAddresses) ip = .ok ((xs ++ [ip]).take maxAssignedAddresses) := by
  unfold issueIp
  by_cases hroom : xs.length < maxAssignedAddresses
  · have hlength : (xs ++ [ip]).length ≤ maxAssignedAddresses := by
      rw [List.length_append, List.length_singleton]
      exact hroom
    rw [List.take_of_length_le hroom.le, if_pos hroom, List.take_of_length_le hlength]
    exact push_ok (by exact hroom) ip
  · have hfull : maxAssignedAddresses ≤ xs.length := Nat.le_of_not_lt hroom
    rw [List.length_take_of_le hfull, if_neg (lt_irrefl _), List.take_append_of_le_length hfull]
    rfl

theorem issueNew_take (xs : List InetAddress) (new : Option InetAddress) :
    issueNew (xs.take maxAssignedAddresses) new =
      .ok ((xs ++ new.toList).take maxAssignedAddresses) := by
  rcases new with _ | ip
  · rw [Option.toList_none, List.append_nil]
    rfl
  · exact issueIp_take xs ip

@[simp] theorem InetAddress.isV6_setPort (a : InetAddress) (port : UInt16) :
    (a.setPort port).isV6 = a.isV6 := by
  cases a <;> rfl

@[simp] theorem InetAddress.isV4_setPort (a : InetAddress) (port : UInt16) :
    (a.setPort port).isV4 = a.isV4 := by
  cases a <;> rfl

/-- A turn of the loop over the stored assignments. -/
theorem issueStored_take (xs : List InetAddress) (a b : Bool) (j : Json) :
    issueStored H r ⟨xs.take maxAssignedAddresses, a, b⟩ j =
      .ok ⟨(xs ++ (storedIp H r j).toList).take maxAssignedAddresses,
        a || (storedIp H r j).any InetAddress.isV4,
          b || (storedIp H r j).any InetAddress.isV6⟩ := by
  unfold issueStored storedIp
  rcases j.text with _ | ips
  · show Except.ok _ = _
    rw [Option.bind_none, Option.toList_none, List.append_nil, Option.any_none, Option.any_none,
      Bool.or_false, Bool.or_false]
  · rw [Option.bind_some]
    dsimp only
    by_cases hrouted : 0 ≤ H.longestMask r.routes (InetAddress.ofText H.text.toInetPton ips)
    · rw [if_pos hrouted, if_pos hrouted, issueIp_take, Option.toList_some, Option.any_some,
        Option.any_some, InetAddress.isV4_setPort, InetAddress.isV6_setPort]
      rfl
    · rw [if_neg hrouted, if_neg hrouted, Option.toList_none, List.append_nil, Option.any_none,
        Option.any_none, Bool.or_false, Bool.or_false]
      rfl

theorem foldlM_issueStored (js : List Json) (xs : List InetAddress) (a b : Bool) :
    js.foldlM (issueStored H r) ⟨xs.take maxAssignedAddresses, a, b⟩ =
      .ok ⟨(xs ++ js.filterMap (storedIp H r)).take maxAssignedAddresses,
        a || (js.filterMap (storedIp H r)).any InetAddress.isV4,
        b || (js.filterMap (storedIp H r)).any InetAddress.isV6⟩ := by
  induction js generalizing xs a b with
  | nil =>
      rw [List.foldlM_nil, List.filterMap_nil, List.append_nil, List.any_nil, List.any_nil,
        Bool.or_false, Bool.or_false]
      rfl
  | cons j js ih =>
      rw [List.foldlM_cons, issueStored_take]
      show js.foldlM (issueStored H r) ⟨_, _, _⟩ = _
      rw [ih, List.filterMap_cons]
      rcases storedIp H r j with _ | ip
      · rw [Option.toList_none, List.append_nil, Option.any_none, Option.any_none, Bool.or_false,
          Bool.or_false]
      · rw [Option.toList_some, Option.any_some, Option.any_some, List.append_assoc,
          List.singleton_append, List.any_cons, List.any_cons, Bool.or_assoc, Bool.or_assoc]

/-- The flags with the one for the addresses that are made from ids. -/
def flagsAfter (r : AddressRequest) (member : Json) (flags : UInt64) : UInt64 :=
  if (madeIps r member).isEmpty then flags else flags ||| flagEnableIpv6NdpEmulation

theorem issueMade_eq {wanted : Bool} {ip : InetAddress} {s : List InetAddress × UInt64}
    (h : s.1.length < maxAssignedAddresses) :
    issueMade wanted ip s =
      .ok (if wanted then (s.1 ++ [ip], s.2 ||| flagEnableIpv6NdpEmulation) else s) := by
  unfold issueMade
  rw [decide_eq_true h, Bool.and_true]
  cases wanted with
  | false => rfl
  | true =>
      show (do
        let staticIps ← push ConfigArray.size .staticIps s.1 ip
        pure (staticIps, s.2 ||| flagEnableIpv6NdpEmulation) : Build _) = _
      rw [push_ok (by exact h)]
      rfl

theorem issueAllMade_eq (flags : UInt64) :
    issueAllMade r member flags = .ok (madeIps r member, flagsAfter r member flags) := by
  unfold issueAllMade flagsAfter madeIps
  extract_lets mode
  by_cases hmode : (mode.isObject && !noAutoAssignIps member) = true
  · have hnone : ([] : List InetAddress).length < maxAssignedAddresses := by decide
    have hone : ∀ ip : InetAddress, [ip].length < maxAssignedAddresses := fun _ => by
      rw [List.length_singleton]
      decide
    rw [if_pos hmode, if_pos hmode, issueMade_eq hnone]
    generalize jsonBool (mode.get "rfc4193") false = rfc4193
    generalize jsonBool (mode.get "6plane") false = plane
    cases rfc4193 with
    | false =>
        refine (issueMade_eq hnone).trans ?_
        cases plane <;> rfl
    | true =>
        refine (issueMade_eq (hone _)).trans ?_
        cases plane with
        | false => rfl
        | true =>
            show Except.ok (_, _ ||| _ ||| _) = Except.ok (_, _ ||| _)
            rw [UInt64.or_assoc, UInt64.or_self]
            rfl
  · rw [if_neg hmode, if_neg hmode]
    rfl

theorem length_madeIps_le : (madeIps r member).length ≤ 2 := by
  unfold madeIps
  extract_lets mode
  split_ifs
  · exact le_rfl
  · exact Nat.le_succ 1
  · exact Nat.le_succ 1
  · exact Nat.zero_le 2
  · exact Nat.zero_le 2

/-- Every address of a member is one. -/
theorem isSet_memberIps : ∀ ip ∈ memberIps H r member, ip.isSet = true := by
  intro ip hip
  rcases List.mem_append.mp hip with hip | hip
  · rcases List.mem_append.mp hip with hip | hip
    · unfold madeIps at hip
      extract_lets mode at hip
      split_ifs at hip <;> simp at hip <;> rcases hip with rfl | rfl <;> rfl
    · obtain ⟨j, _, hj⟩ := List.mem_filterMap.mp hip
      obtain ⟨ips, _, hstored⟩ := Option.bind_eq_some_iff.mp hj
      dsimp only at hstored
      split_ifs at hstored with hrouted
      · obtain ⟨route, _, hrouted, _⟩ := Host.exists_longestMask hrouted
        have hset := Host.isSet_of_routed hrouted
        obtain rfl := Option.some.inj hstored
        cases hips : InetAddress.ofText H.text.toInetPton ips with
        | nil =>
            rw [hips] at hset
            exact hset
        | v4 a port => rfl
        | v6 a port => rfl
  · rcases List.mem_append.mp hip with hip | hip
    · have h6 := Option.mem_toList.mp hip
      unfold newIp6 find6 at h6
      split_ifs at h6
      · obtain ⟨a, _, rfl⟩ := Option.map_eq_some_iff.mp h6
        rfl
    · have h4 := Option.mem_toList.mp hip
      unfold newIp4 find4 at h4
      split_ifs at h4
      · obtain ⟨a, _, rfl⟩ := Option.map_eq_some_iff.mp h4
        rfl

/-- The addresses depend on two fields of the record. -/
theorem memberIps_congr {member' : Json}
    (hstored : member'.get "ipAssignments" = member.get "ipAssignments")
    (hauto : member'.get "noAutoAssignIps" = member.get "noAutoAssignIps") :
    memberIps H r member' = memberIps H r member := by
  unfold memberIps newIps newIp4 newIp6 keptIps madeIps searches storedAssignments noAutoAssignIps
  rw [hstored, hauto]

/-- **The addresses issued** are the first of the four sources one after another. -/
theorem issueAddresses_eq (flags : UInt64) :
    issueAddresses H r member flags =
      .ok ((memberIps H r member).take maxAssignedAddresses, flagsAfter r member flags,
        recordAfter H r member) := by
  have hmade : madeIps r member = (madeIps r member).take maxAssignedAddresses :=
    (List.take_of_length_le (length_madeIps_le.trans (by decide))).symm
  have hheld := foldlM_issueStored (H := H) (r := r) (storedAssignments member) (madeIps r member)
    false false
  rw [← hmade, Bool.false_or, Bool.false_or] at hheld
  unfold issueAddresses
  rw [issueAllMade_eq]
  show (storedAssignments member).foldlM (issueStored H r)
    ⟨madeIps r member, false, false⟩ >>= _ = _
  rw [hheld]
  show issueNew _ (newIp6 H r member) >>= _ = _
  rw [issueNew_take]
  show issueNew _ (newIp4 H r member) >>= _ = _
  rw [issueNew_take, List.append_assoc]
  rfl

end Spec

end ZGalaxy
