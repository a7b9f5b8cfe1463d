/-
ZGalaxy/BridgeRoutes.lean

Routes to devices behind bridges, and the limit on them: `Network::learnBridgeRoute`.

A round of the eviction loop counts the routes of every address in a table of its own, keeping the
address that first reached the largest count (`largestOwner`), and then erases the routes of this
address.  While there are more routes than allowed there is one, so its owner has one and the table
shrinks (`size_killRoutes_lt`); this is what the loop terminates by.

`Evicts` says what evicting is without the loop: rounds, each of which takes all routes of an
address that owns at least as many as any other.  Main result: `learnBridgeRoute_evicts`.
-/
import ZGalaxy.InetAddress
import ZGalaxy.Membership
import Mathlib.Data.List.Nodup

namespace ZGalaxy

instance : HashCode Mac := ⟨BitVec.toNat⟩

/-- `ZT_MAX_BRIDGE_ROUTES` -/
def maxBridgeRoutes : ℕ := 67108864

/-- `_remoteBridgeRoutes` -/
abbrev BridgeRoutes := Hashtable Mac Address

/-! ### Counting -/

/-- What the first loop of a round keeps: `counts`, `maxAddr` and `maxCount`. -/
structure RouteCounts where
  counts : Hashtable Address ℕ
  maxAddr : Address
  maxCount : ℕ

namespace RouteCounts

/-- Nothing is counted. -/
def start : RouteCounts := ⟨.empty 64 Hashtable.buckets_pos, 0, 0⟩

/-- One turn of the loop. -/
def count (n : RouteCounts) (route : Mac × Address) : RouteCounts :=
  let a := route.2
  let c := (n.counts.get a).getD 0 + 1
  { counts := n.counts.set a c
    maxAddr := if n.maxCount < c then a else n.maxAddr
    maxCount := if n.maxCount < c then c else n.maxCount }

end RouteCounts

/-- How many routes of a list an address owns. -/
def owned (routes : List (Mac × Address)) (a : Address) : ℕ := routes.countP fun e => e.2 = a

namespace RouteCounts

variable {n : RouteCounts} {routes : List (Mac × Address)}

/-- The counts of a list of routes: what each address owns, and an address that owns the most. -/
structure Counts (n : RouteCounts) (routes : List (Mac × Address)) : Prop where
  get : ∀ a, (n.counts.get a).getD 0 = owned routes a
  le : ∀ a, owned routes a ≤ n.maxCount
  max : owned routes n.maxAddr = n.maxCount

theorem counts_start : Counts start [] := by
  refine ⟨fun a => ?_, fun a => Nat.zero_le _, rfl⟩
  have hempty : start.counts.get a = none := Hashtable.get_empty _ _ _
  rw [hempty]
  rfl

theorem owned_concat (routes : List (Mac × Address)) (e : Mac × Address) (a : Address) :
    owned (routes ++ [e]) a = owned routes a + if e.2 = a then 1 else 0 := by
  unfold owned
  rw [List.countP_append, List.countP_singleton]
  simp

theorem Counts.count (h : Counts n routes) (e : Mac × Address) :
    Counts (n.count e) (routes ++ [e]) := by
  have hc : (n.counts.get e.2).getD 0 + 1 = owned (routes ++ [e]) e.2 := by
    rw [owned_concat, if_pos rfl, h.get]
  have hother : ∀ a, e.2 ≠ a → owned (routes ++ [e]) a = owned routes a := by
    intro a ha
    rw [owned_concat, if_neg ha, Nat.add_zero]
  unfold RouteCounts.count
  dsimp only
  rw [hc]
  refine ⟨fun a => ?_, fun a => ?_, ?_⟩
  · show ((n.counts.set e.2 _).get a).getD 0 = _
    rw [Hashtable.get_set]
    by_cases ha : a = e.2
    · rw [if_pos ha, ha]
      rfl
    · rw [if_neg ha, h.get, hother a (Ne.symm ha)]
  · show owned (routes ++ [e]) a ≤ if n.maxCount < owned (routes ++ [e]) e.2 then _ else _
    by_cases ha : e.2 = a
    · rw [← ha]
      split_ifs with hlt
      · exact Nat.le_refl _
      · exact Nat.le_of_not_lt hlt
    · rw [hother a ha]
      have hle := h.le a
      split_ifs with hlt
      · exact Nat.le_of_lt (Nat.lt_of_le_of_lt hle hlt)
      · exact hle
  · show owned (routes ++ [e]) (if n.maxCount < owned (routes ++ [e]) e.2 then _ else _) =
      if n.maxCount < owned (routes ++ [e]) e.2 then _ else _
    split_ifs with hlt
    · rfl
    · -- the owner of this route was not ahead, so it is not the one that was
      have hne : e.2 ≠ n.maxAddr := by
        intro heq
        rw [heq, owned_concat, if_pos heq, h.max] at hlt
        exact hlt (Nat.lt_succ_self _)
      rw [hother _ hne, h.max]

theorem counts_foldl (routes : List (Mac × Address)) :
    Counts (routes.foldl count start) routes := by
  induction routes using List.reverseRecOn with
  | nil => exact counts_start
  | append_singleton routes e ih =>
      rw [List.foldl_append, List.foldl_cons, List.foldl_nil]
      exact ih.count e

end RouteCounts

/-! ### Evicting -/

namespace BridgeRoutes

variable {routes : BridgeRoutes}

/-- The address responsible for the most entries. -/
def largestOwner (routes : BridgeRoutes) : Address :=
  (routes.entries.foldl RouteCounts.count RouteCounts.start).maxAddr

/-- An address is killed from the table. -/
def killRoutes (routes : BridgeRoutes) (maxAddr : Address) : BridgeRoutes :=
  routes.retain fun _ a => a ≠ maxAddr

/-- **The largest owner** owns at least as many routes as any other address. -/
theorem owned_le_largestOwner (routes : BridgeRoutes) (a : Address) :
    owned routes.entries a ≤ owned routes.entries routes.largestOwner := by
  have h := RouteCounts.counts_foldl routes.entries
  rw [largestOwner, h.max]
  exact h.le a

theorem get_killRoutes (maxAddr : Address) (mac : Mac) :
    (routes.killRoutes maxAddr).get mac =
      if routes.get mac = some maxAddr then none else routes.get mac := by
  rw [killRoutes, Hashtable.get_retain]
  rcases routes.get mac with - | a
  · rfl
  · by_cases ha : a = maxAddr
    · simp [ha]
    · simp [ha, Option.filter]

theorem nodup_entries (routes : BridgeRoutes) : routes.entries.Nodup :=
  (Hashtable.nodup_entries routes).of_map Prod.fst

/-- Where an address owns a route, killing it makes the table smaller. -/
theorem size_killRoutes_lt {maxAddr : Address} (h : 0 < owned routes.entries maxAddr) :
    (routes.killRoutes maxAddr).s < routes.s := by
  have hsize : ∀ r : BridgeRoutes, r.s = r.entries.length := fun r => r.size_eq
  obtain ⟨e, he, hea⟩ := List.countP_pos_iff.mp h
  have hea : e.2 = maxAddr := of_decide_eq_true hea
  have hsub : (routes.killRoutes maxAddr).entries ⊆ routes.entries.erase e := by
    rintro ⟨mac, a⟩ hmem
    have hget := (Hashtable.mem_entries_iff _).mp hmem
    rw [get_killRoutes] at hget
    split_ifs at hget with hkilled
    refine (routes.nodup_entries.mem_erase_iff).mpr ⟨?_, routes.mem_entries_iff.mpr hget⟩
    rintro rfl
    exact hkilled (hget.trans (congrArg some hea))
  have hlen := ((routes.killRoutes maxAddr).nodup_entries.subperm hsub).length_le
  rw [List.length_erase_of_mem he] at hlen
  have hpos := List.length_pos_of_mem he
  rw [hsize, hsize]
  omega

/-- While there are routes, the largest owner has one. -/
theorem owned_largestOwner_pos (h : maxBridgeRoutes < routes.s) :
    0 < owned routes.entries routes.largestOwner := by
  have hne : routes.entries ≠ [] := by
    intro hnil
    have hsize : routes.s = routes.entries.length := routes.size_eq
    rw [hsize, hnil] at h
    exact Nat.not_lt_zero _ h
  obtain ⟨e, he⟩ := List.exists_mem_of_ne_nil _ hne
  have hown : 0 < owned routes.entries e.2 :=
    List.countP_pos_iff.mpr ⟨e, he, decide_eq_true rfl⟩
  exact Nat.lt_of_lt_of_le hown (routes.owned_le_largestOwner e.2)

/-- The anti-DOS circuit breaker of `Network::learnBridgeRoute`. -/
def evict (routes : BridgeRoutes) : BridgeRoutes :=
  if h : maxBridgeRoutes < routes.s then
    have : (routes.killRoutes routes.largestOwner).s < routes.s :=
      size_killRoutes_lt (owned_largestOwner_pos h)
    evict (routes.killRoutes routes.largestOwner)
  else routes
termination_by routes.s

/-- `Network::learnBridgeRoute` -/
def learnBridgeRoute (routes : BridgeRoutes) (mac : Mac) (addr : Address) : BridgeRoutes :=
  evict (routes.set mac addr)

/-! ### What evicting is -/

/-- **Evicting**: while there are too many routes, an address that owns at least as many of them as
any other loses all of its routes, and no other route is changed. -/
inductive Evicts : BridgeRoutes → BridgeRoutes → Prop
  | done {routes : BridgeRoutes} (few : routes.s ≤ maxBridgeRoutes) : Evicts routes routes
  | round {routes routes' routes'' : BridgeRoutes} (many : maxBridgeRoutes < routes.s)
      (owner : Address)
      (largest : ∀ a, owned routes.entries a ≤ owned routes.entries owner)
      (killed : ∀ mac, routes'.get mac =
        if routes.get mac = some owner then none else routes.get mac)
      (fewer : routes'.s < routes.s)
      (rest : Evicts routes' routes'') : Evicts routes routes''

theorem evicts_evict (routes : BridgeRoutes) : Evicts routes routes.evict := by
  induction routes using evict.induct with
  | case1 routes h hlt ih =>
      rw [evict, dif_pos h]
      exact .round h _ routes.owned_le_largestOwner (fun mac => get_killRoutes _ mac) hlt ih
  | case2 routes h =>
      rw [evict, dif_neg h]
      exact .done (Nat.le_of_not_lt h)

/-- What evicting leaves is within the limit. -/
theorem Evicts.size_le {routes' : BridgeRoutes} (h : Evicts routes routes') :
    routes'.s ≤ maxBridgeRoutes := by
  induction h with
  | done few => exact few
  | round _ _ _ _ _ _ ih => exact ih

/-- **Learning a route**, into any table, puts it in place and then evicts, and leaves the table
within the limit. -/
theorem learnBridgeRoute_evicts (routes : BridgeRoutes) (mac : Mac) (addr : Address) :
    Evicts (routes.set mac addr) (routes.learnBridgeRoute mac addr) ∧
      (routes.learnBridgeRoute mac addr).s ≤ maxBridgeRoutes :=
  ⟨evicts_evict _, (evicts_evict _).size_le⟩

end BridgeRoutes

end ZGalaxy
