/-
ZGalaxy/PoolSearch.lean

The search in a small pool of IPv4 addresses.

A counter starts from the address of the member and is taken modulo the length of the pool, which is
the distance of its ends: so the last address of a pool is never tried, unless it is the only one.
All others are, as long as the counter does not wrap (`visits_iff` says which ones when it does).  A
trial fails for an address that the first route for it does not give a netmask.

Main result: `pool_search_complete_iff`, that a member without addresses gets one from a pool of at
most a thousand addresses, provided there is one to get, exactly when there is one among those that
the counter comes to.
-/
import ZGalaxy.ConfigBuilding

namespace ZGalaxy

open BoundedWrites

/-! ### A counter that wraps -/

/-- The front part of a range that has a property. -/
theorem mem_takeWhile_range {p : ℕ → Bool} {n t : ℕ} :
    t ∈ (List.range n).takeWhile p ↔ t < n ∧ ∀ s, s ≤ t → p s = true := by
  -- on the length: the last number counts if all before it did
  induction n with
  | zero =>
      refine iff_of_false List.not_mem_nil fun h => ?_
      exact Nat.not_lt_zero t h.1
  | succ n ih =>
      rw [List.range_succ]
      by_cases hall : ∀ s ∈ List.range n, p s = true
      · have hself : (List.range n).takeWhile p = List.range n :=
          List.takeWhile_eq_self_iff.mpr hall
        rw [List.takeWhile_append_of_pos hall, List.mem_append, ← hself, ih]
        constructor
        · rintro (⟨hlt, h⟩ | hlast)
          · exact ⟨Nat.lt_succ_of_lt hlt, h⟩
          · have hp := List.mem_takeWhile_imp hlast
            obtain rfl := List.mem_singleton.mp (List.takeWhile_subset _ hlast)
            refine ⟨Nat.lt_succ_self _, fun s hs => ?_⟩
            rcases Nat.lt_or_eq_of_le hs with hlt | rfl
            · exact hall s (List.mem_range.mpr hlt)
            · exact hp
        · rintro ⟨hlt, h⟩
          rcases Nat.lt_or_eq_of_le (Nat.le_of_lt_succ hlt) with hlt | rfl
          · exact Or.inl ⟨hlt, h⟩
          · refine Or.inr ?_
            rw [List.takeWhile_cons_of_pos (h t le_rfl)]
            exact List.mem_cons_self
      · have hshort : ((List.range n).takeWhile p).length ≠ (List.range n).length := by
          intro heq
          have hself := List.Sublist.eq_of_length (List.takeWhile_sublist p) heq
          exact hall (List.takeWhile_eq_self_iff.mp hself)
        rw [List.takeWhile_append, if_neg hshort, ih]
        constructor
        · rintro ⟨hlt, h⟩
          exact ⟨Nat.lt_succ_of_lt hlt, h⟩
        · rintro ⟨hlt, h⟩
          refine ⟨?_, h⟩
          by_contra hge
          exact hall fun s hs => h s ((List.mem_range.mp hs).le.trans (Nat.le_of_not_lt hge))

/-- A counter comes to every remainder within as many steps as there are. -/
theorem exists_step {len o : ℕ} (ho : o < len) (c : ℕ) : ∃ t, t < len ∧ (c + t) % len = o := by
  have hpos : 0 < len := Nat.zero_lt_of_lt ho
  have hc : c % len < len := Nat.mod_lt c hpos
  refine ⟨(o + (len - c % len)) % len, Nat.mod_lt _ hpos, ?_⟩
  calc (c + (o + (len - c % len)) % len) % len
      = (c % len + (o + (len - c % len))) % len := by
        rw [Nat.add_mod_mod, Nat.mod_add_mod]
    _ = (o + len) % len := by
        congr 1
        omega
    _ = o := by rw [Nat.add_mod_right, Nat.mod_eq_of_lt ho]

/-- **The remainders that a counter comes to** in `n` steps, if it wraps at `W`: all of them when it
does not wrap too early, those of the steps up to there, and as many as there are steps behind. -/
theorem visits_iff {W c len n o : ℕ} (hc : c < W) (ho : o < len) (hlen : len < n) (hn : n ≤ W) :
    (∃ t, t < n ∧ (c + t) % W % len = o) ↔
      len ≤ W - c ∨ o < n - (W - c) ∨ ∃ j, j < W - c ∧ (c + j) % len = o := by
  constructor
  · rintro ⟨t, ht, hvisit⟩
    by_cases hwrap : t < W - c
    · rw [Nat.mod_eq_of_lt (show c + t < W by omega)] at hvisit
      exact Or.inr (Or.inr ⟨t, hwrap, hvisit⟩)
    · -- the counter has wrapped once, and counts from zero again
      have hcount : (c + t) % W = t - (W - c) := by
        rw [Nat.mod_eq_sub_mod (by omega), Nat.mod_eq_of_lt (by omega)]
        omega
      rw [hcount] at hvisit
      have hle : o ≤ t - (W - c) := hvisit ▸ Nat.mod_le _ _
      exact Or.inr (Or.inl (by omega))
  · have hstep : len ≤ W - c → ∃ t, t < n ∧ (c + t) % W % len = o := by
      intro hroom
      obtain ⟨t, ht, hvisit⟩ := exists_step ho c
      refine ⟨t, ht.trans hlen, ?_⟩
      rwa [Nat.mod_eq_of_lt (show c + t < W by omega)]
    rintro (hroom | hbehind | ⟨j, hj, hvisit⟩)
    · exact hstep hroom
    · refine ⟨W - c + o, by omega, ?_⟩
      rw [show c + (W - c + o) = W + o by omega, Nat.add_mod_left,
        Nat.mod_eq_of_lt (show o < W by omega), Nat.mod_eq_of_lt ho]
    · by_cases hroom : len ≤ W - c
      · exact hstep hroom
      · refine ⟨j, by omega, ?_⟩
        rwa [Nat.mod_eq_of_lt (show c + j < W by omega)]

/-! ### Small pools -/

/-- A request of a member without addresses, in a network with one pool of at most a thousand IPv4
addresses. -/
structure SmallPool (H : Host) where
  request : AddressRequest
  member : Json
  pool : Json
  start : BitVec 32
  stop : BitVec 32
  pools : request.network.get "ipAssignmentPools" = .array [pool]
  range : range4 H.text.toInetPton pool = some (start, stop)
  mode : autoAssigned (request.network.get "v4AssignMode") = true
  wanted : noAutoAssignIps member = false
  unassigned : storedAssignments member = []
  positive : 0 < start
  ordered : start ≤ stop
  small : stop.toNat - start.toNat < 1000

namespace SmallPool

variable {H : Host} (s : SmallPool H)

/-- Some address of the pool is routed in the LAN, not allocated, and does not end in 255. -/
def Available : Prop :=
  ∃ a, s.start ≤ a ∧ a ≤ s.stop ∧
    (∃ route ∈ s.request.routes, route.via.isSet = false ∧ H.routed (.v4 a 0) route = true) ∧
    .v4 a 0 ∉ s.request.allocatedIps ∧ a &&& 0xff ≠ 0xff

/-- The member gets an address of the pool. -/
def Assigns : Prop :=
  ∀ flags, ∃ ips flags' member',
    issueAddresses H s.request s.member flags = .ok (ips, flags', member') ∧
      ∃ a port, .v4 a port ∈ ips ∧ s.start ≤ a ∧ a ≤ s.stop

/-- The distance of the ends. -/
def len : ℕ := s.stop.toNat - s.start.toNat

/-- Where the counter starts. -/
def counter : ℕ := (s.request.identity.setWidth 32).toNat

/-- The steps until the counter wraps. -/
def beforeWrap : ℕ := 4294967296 - s.counter

/-- How many trials there are: `k` never gets behind the last address of all. -/
def turns : ℕ := if s.stop = 0xffffffff then 1000 else s.len + 1

/-- The counter comes to the address at a distance from the start. -/
def Visits (o : ℕ) : Prop :=
  s.len ≤ s.beforeWrap ∨ o < s.turns - s.beforeWrap ∨
    ∃ j, j < s.beforeWrap ∧ (s.counter + j) % s.len = o

/-- The addresses that are tried: the only one, or those before the end that the counter comes
to. -/
def Tries (a : BitVec 32) : Prop :=
  (s.len = 0 ∧ a = s.start) ∨
    ∃ o, o < s.len ∧ a = s.start + BitVec.ofNat 32 o ∧ s.Visits o

/-- An address that a trial does not reject. -/
def Claimable (a : BitVec 32) : Prop :=
  a &&& 0xff ≠ 0xff ∧ 0 < H.firstMask s.request.routes a ∧ .v4 a 0 ∉ s.request.allocatedIps

/-! ### Trials -/

theorem len_add : s.start.toNat + s.len = s.stop.toNat := Nat.add_sub_cancel' s.ordered

theorem toNat_stop_sub : (s.stop - s.start).toNat = s.len := BitVec.toNat_sub_of_le s.ordered

theorem counter_lt : s.counter < 4294967296 := BitVec.isLt _

theorem len_lt_turns : s.len < s.turns := by
  unfold turns
  have hsmall : s.len < 1000 := s.small
  split_ifs
  · exact hsmall
  · exact Nat.lt_succ_self _

theorem turns_le : s.turns ≤ 1000 := by
  unfold turns
  have hsmall : s.len < 1000 := s.small
  split_ifs
  · exact le_rfl
  · exact hsmall

/-- The loop makes that many turns. -/
theorem mem_trials4 (t : ℕ) : t ∈ trials4 s.start s.stop ↔ t < s.turns := by
  unfold trials4
  rw [mem_takeWhile_range]
  have hstop := s.stop.isLt
  have hadd := s.len_add
  have hsmall : s.len < 1000 := s.small
  unfold turns
  by_cases hlast : s.stop = 0xffffffff
  · rw [if_pos hlast]
    refine and_iff_left fun k _ => decide_eq_true ?_
    rw [hlast, BitVec.le_def]
    exact Nat.le_of_lt_succ (BitVec.isLt _)
  · rw [if_neg hlast]
    have hbelow : s.stop.toNat + 1 < 4294967296 := by
      have hne : s.stop.toNat ≠ 4294967295 := fun h => hlast (BitVec.eq_of_toNat_eq h)
      omega
    have hturn : ∀ k, k ≤ s.len + 1 → (s.start + BitVec.ofNat 32 k).toNat = s.start.toNat + k := by
      intro k hk
      rw [BitVec.toNat_add, BitVec.toNat_ofNat]
      omega
    constructor
    · rintro ⟨_, h⟩
      by_contra hge
      have hover := of_decide_eq_true (h (s.len + 1) (by omega))
      rw [BitVec.le_def, hturn _ le_rfl] at hover
      omega
    · intro ht
      refine ⟨by omega, fun k hk => decide_eq_true ?_⟩
      rw [BitVec.le_def, hturn k (by omega)]
      omega

/-- Where a trial comes to, in a pool of several addresses. -/
theorem trial4_eq (hlen : 0 < s.len) (t : ℕ) :
    trial4 s.start s.stop s.request.identity t =
      s.start + BitVec.ofNat 32 ((s.counter + t) % 4294967296 % s.len) := by
  have hpos : 0 < s.stop - s.start := by
    rw [BitVec.lt_def, s.toNat_stop_sub]
    exact hlen
  unfold trial4
  extract_lets ipRangeLen ipTrialCounter
  rw [if_pos hpos]
  congr 1
  apply BitVec.eq_of_toNat_eq
  have hlt : (s.counter + t) % 4294967296 % s.len < 4294967296 :=
    (Nat.mod_le _ _).trans_lt (Nat.mod_lt _ (by decide))
  have hcount : ipTrialCounter.toNat = (s.counter + t) % 4294967296 := by
    show (BitVec.setWidth 32 _ + BitVec.ofNat 32 t).toNat = _
    rw [BitVec.toNat_add, BitVec.toNat_ofNat]
    exact Nat.add_mod_mod _ _ _
  rw [BitVec.toNat_umod, s.toNat_stop_sub, hcount, BitVec.toNat_ofNat]
  exact (Nat.mod_eq_of_lt hlt).symm

/-- **The addresses that are tried** are those that the counter comes to. -/
theorem tries_iff (a : BitVec 32) :
    s.Tries a ↔ ∃ t ∈ trials4 s.start s.stop, trial4 s.start s.stop s.request.identity t = a := by
  have hturns := s.len_lt_turns
  unfold Tries
  rcases Nat.eq_zero_or_pos s.len with hzero | hlen
  · have hnone : ¬0 < s.stop - s.start := by
      rw [BitVec.lt_def, s.toNat_stop_sub, hzero]
      exact lt_irrefl _
    have htrial : ∀ t, trial4 s.start s.stop s.request.identity t = s.start := fun t => if_neg hnone
    constructor
    · rintro (⟨_, rfl⟩ | ⟨o, ho, _⟩)
      · exact ⟨0, (s.mem_trials4 0).mpr (by omega), htrial 0⟩
      · omega
    · rintro ⟨t, _, ht⟩
      exact Or.inl ⟨hzero, ht ▸ htrial t⟩
  · have hvisits : ∀ o, o < s.len →
        (s.Visits o ↔ ∃ t, t < s.turns ∧ (s.counter + t) % 4294967296 % s.len = o) := fun o ho =>
      (visits_iff s.counter_lt ho hturns (s.turns_le.trans (by decide))).symm
    constructor
    · rintro (⟨hzero, _⟩ | ⟨o, ho, rfl, hvisit⟩)
      · omega
      · obtain ⟨t, ht, hto⟩ := (hvisits o ho).mp hvisit
        exact ⟨t, (s.mem_trials4 t).mpr ht, by rw [s.trial4_eq hlen, hto]⟩
    · rintro ⟨t, ht, rfl⟩
      have ho : (s.counter + t) % 4294967296 % s.len < s.len := Nat.mod_lt _ hlen
      exact Or.inr ⟨_, ho, s.trial4_eq hlen t,
        (hvisits _ ho).mpr ⟨t, (s.mem_trials4 t).mp ht, rfl⟩⟩

/-- What is tried lies in the pool. -/
theorem mem_of_tries {a : BitVec 32} (h : s.Tries a) : s.start ≤ a ∧ a ≤ s.stop := by
  have hadd := s.len_add
  have hstop := s.stop.isLt
  rcases h with ⟨_, rfl⟩ | ⟨o, ho, rfl, _⟩
  · exact ⟨BitVec.le_refl _, s.ordered⟩
  · have hnat : (s.start + BitVec.ofNat 32 o).toNat = s.start.toNat + o := by
      rw [BitVec.toNat_add, BitVec.toNat_ofNat]
      omega
    rw [BitVec.le_def, BitVec.le_def, hnat]
    exact ⟨Nat.le_add_right _ _, by omega⟩

/-! ### The search -/

theorem claimed4_eq_true_iff (a : BitVec 32) :
    claimed4 H s.request [] a = true ↔ s.Claimable a := by
  rw [claimed4_iff, isFree_iff]
  refine and_congr_right fun _ => and_congr_right fun _ => ?_
  exact and_iff_left fun j hj => absurd hj List.not_mem_nil

theorem keptIps_nil : keptIps H s.request s.member = [] := by
  unfold keptIps
  rw [s.unassigned]
  rfl

/-- A pool of IPv4 addresses is none of IPv6 addresses. -/
theorem newIp6_none : newIp6 H s.request s.member = none := by
  have hrange6 : range6 H.text.toInetPton s.pool = none := by
    have hrange := s.range
    unfold range4 at hrange
    unfold range6
    generalize poolEnds H.text.toInetPton s.pool = ends at hrange ⊢
    obtain ⟨a, b⟩ := ends
    cases a <;> cases b <;> first | rfl | cases hrange
  have hpools : ZGalaxy.pools s.request = [s.pool] := by
    unfold ZGalaxy.pools
    rw [s.pools]
    rfl
  have hfind : find6 H s.request (storedAssignments s.member) = none := by
    unfold find6
    rw [hpools, List.zipIdx_singleton, List.findSome?_singleton, hrange6]
    rfl
  unfold newIp6
  rw [hfind, ite_self]

/-- What the search comes to is the new address. -/
theorem newIp4_eq :
    newIp4 H s.request s.member = find4 H s.request [] := by
  have hsearches : searches s.request s.member "v4AssignMode" = true := by
    unfold searches
    rw [s.pools, s.wanted, s.mode]
    rfl
  unfold newIp4
  rw [hsearches, s.keptIps_nil, s.newIp6_none, s.unassigned]
  rfl

theorem find4_eq :
    find4 H s.request [] =
      (((trials4 s.start s.stop).map (trial4 s.start s.stop s.request.identity)).find?
        (claimed4 H s.request [])).map fun ip =>
          .v4 ip (UInt16.ofNat (H.firstMask s.request.routes ip).toNat) := by
  have hpools : ZGalaxy.pools s.request = [s.pool] := by
    unfold ZGalaxy.pools
    rw [s.pools]
    rfl
  have hsearch : ¬(s.stop < s.start ∨ s.start = 0) := by
    rintro (hlt | hzero)
    · exact absurd s.ordered (BitVec.not_le.mpr hlt)
    · exact absurd s.positive (hzero ▸ BitVec.lt_irrefl _)
  unfold find4
  rw [hpools, List.findSome?_singleton, s.range, Option.bind_some]
  unfold search4
  rw [if_neg hsearch]

/-- A new address is one that is tried and can be claimed. -/
theorem exists_newIp4_iff :
    (∃ ip, newIp4 H s.request s.member = some ip) ↔ ∃ a, s.Tries a ∧ s.Claimable a := by
  rw [s.newIp4_eq, s.find4_eq, ← Option.isSome_iff_exists, Option.isSome_map, List.find?_isSome]
  constructor
  · rintro ⟨a, hmem, hclaimed⟩
    obtain ⟨t, ht, rfl⟩ := List.mem_map.mp hmem
    exact ⟨_, (s.tries_iff _).mpr ⟨t, ht, rfl⟩, (s.claimed4_eq_true_iff _).mp hclaimed⟩
  · rintro ⟨a, htries, hclaimable⟩
    obtain ⟨t, ht, rfl⟩ := (s.tries_iff a).mp htries
    exact ⟨_, List.mem_map.mpr ⟨t, ht, rfl⟩, (s.claimed4_eq_true_iff _).mpr hclaimable⟩

/-- The new address lies in the pool. -/
theorem newIp4_mem {ip : InetAddress} (h : newIp4 H s.request s.member = some ip) :
    ∃ a port, ip = .v4 a port ∧ s.start ≤ a ∧ a ≤ s.stop := by
  rw [s.newIp4_eq, s.find4_eq] at h
  obtain ⟨a, hfound, rfl⟩ := Option.map_eq_some_iff.mp h
  obtain ⟨t, ht, hta⟩ := List.mem_map.mp (List.mem_of_find?_eq_some hfound)
  exact ⟨a, _, rfl, s.mem_of_tries ((s.tries_iff a).mpr ⟨t, ht, hta⟩)⟩

/-- The addresses made from ids are IPv6 addresses. -/
theorem isV6_of_mem_madeIps {r : AddressRequest} {member : Json} {ip : InetAddress}
    (h : ip ∈ madeIps r member) : ip.isV6 = true := by
  unfold madeIps at h
  extract_lets mode at h
  split_ifs at h <;> simp at h <;> rcases h with rfl | rfl <;> rfl

/-- The member has no addresses but those made from ids, and the new one. -/
theorem memberIps_eq :
    (memberIps H s.request s.member).take maxAssignedAddresses =
      madeIps s.request s.member ++ (newIp4 H s.request s.member).toList := by
  unfold memberIps newIps
  rw [s.keptIps_nil, s.newIp6_none, List.append_nil, Option.toList_none, List.nil_append]
  apply List.take_of_length_le
  rw [List.length_append]
  have hmade : (madeIps s.request s.member).length ≤ 2 := length_madeIps_le
  have hnew : (newIp4 H s.request s.member).toList.length ≤ 1 := Option.length_toList_le
  exact (Nat.add_le_add hmade hnew).trans (by decide)

/-- **The member gets an address** of the pool exactly if one that is tried can be claimed. -/
theorem assigns_iff : s.Assigns ↔ ∃ a, s.Tries a ∧ s.Claimable a := by
  rw [← s.exists_newIp4_iff]
  constructor
  · intro h
    obtain ⟨ips, flags', member', hissued, a, port, hmem, _, _⟩ := h 0
    rw [issueAddresses_eq, s.memberIps_eq] at hissued
    obtain ⟨rfl, _⟩ := Prod.mk.inj (Except.ok.inj hissued)
    rcases List.mem_append.mp hmem with hmade | hnew
    · exact absurd (isV6_of_mem_madeIps hmade) Bool.false_ne_true
    · exact ⟨_, Option.mem_toList.mp hnew⟩
  · rintro ⟨ip, hip⟩ flags
    obtain ⟨a, port, rfl, hstart, hstop⟩ := s.newIp4_mem hip
    refine ⟨_, _, _, issueAddresses_eq flags, a, port, ?_, hstart, hstop⟩
    rw [s.memberIps_eq, hip]
    exact List.mem_append_right _ List.mem_cons_self

end SmallPool

/-- **A small pool is searched through** exactly if, where some address of it is to be had, one can
be claimed that the counter comes to. -/
theorem pool_search_complete_iff (H : Host) (s : SmallPool H) :
    (s.Available → s.Assigns) ↔ (s.Available → ∃ a, s.Tries a ∧ s.Claimable a) :=
  imp_congr_right fun _ => s.assigns_iff

/-- The last of several addresses is not tried. -/
theorem SmallPool.not_tries_stop {H : Host} (s : SmallPool H) (hlen : 0 < s.len) :
    ¬s.Tries s.stop := by
  have hadd := s.len_add
  have hstop := s.stop.isLt
  rintro (⟨hzero, _⟩ | ⟨o, ho, heq, _⟩)
  · omega
  · have hnat := congrArg BitVec.toNat heq
    rw [BitVec.toNat_add, BitVec.toNat_ofNat] at hnat
    omega

/-- A pool of two addresses. -/
def pairOfAddresses : Json :=
  .object [("ipRangeEnd", .string "10.0.0.2"), ("ipRangeStart", .string "10.0.0.1")]

/-- The first of the two addresses is allocated already. -/
def oneOfTwo : SmallPool dottedHost where
  request :=
    { nwid := 0x8056c2e21c000001
      identity := 0x1234567890
      network := .object [("ipAssignmentPools", .array [pairOfAddresses]),
        ("v4AssignMode", .object [("zt", .boolean true)])]
      routes := [⟨.v4 0x0a000000 24, .nil, 0, 0⟩]
      allocatedIps := {.v4 0x0a000001 0}
      random := fun _ _ => (0, 0) }
  member := .object []
  pool := pairOfAddresses
  start := 0x0a000001
  stop := 0x0a000002
  pools := rfl
  range := by decide +kernel
  mode := rfl
  wanted := rfl
  unassigned := rfl
  positive := by decide
  ordered := by decide
  small := by decide

/-- The second address is free, and not assigned. -/
theorem second_not_assigned : ¬∀ (H : Host) (s : SmallPool H), s.Available → s.Assigns := by
  intro h
  have havailable : oneOfTwo.Available := by
    refine ⟨0x0a000002, by decide, by decide, ⟨_, List.mem_cons_self, rfl, ?_⟩, ?_, by decide⟩
    · decide +kernel
    · decide +kernel
  obtain ⟨a, htries, -, -, hfree⟩ := oneOfTwo.assigns_iff.mp (h _ oneOfTwo havailable)
  obtain ⟨hstart, hstop⟩ := oneOfTwo.mem_of_tries htries
  have hlast : a ≠ 0x0a000002 := by
    rintro rfl
    exact oneOfTwo.not_tries_stop (by decide) htries
  have hfirst : a = 0x0a000001 := by
    have hlower : 0x0a000001 ≤ a.toNat := hstart
    have hupper : a.toNat ≤ 0x0a000002 := hstop
    have hne : a.toNat ≠ 0x0a000002 := fun heq => hlast (BitVec.eq_of_toNat_eq heq)
    exact BitVec.eq_of_toNat_eq (show a.toNat = 0x0a000001 by omega)
  exact hfree (hfirst ▸ Finset.mem_singleton_self _)

end ZGalaxy
