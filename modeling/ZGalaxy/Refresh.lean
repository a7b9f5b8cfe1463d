/-
ZGalaxy/Refresh.lean

Refreshing the endpoints of the first root, again and again.

A call that changes something leaves the merge of the root's endpoints with the resolved ones
(`refresh_eq_some`).  The same addresses once more change nothing exactly when they are settled
(`refresh_again`): private addresses that were resolved count as the root's own the next time,
so they move to the front, and the port that addresses without one take can change.

Main results: `planet_again` and `moon_again` for two calls with the same addresses, and for any
row of calls `endpoints_run`, what the first root has at the end.
-/
import ZGalaxy.WorldUpdates

namespace ZGalaxy

open Fresh

variable {root : Root} {rest : List Root} {eps : List InetAddress}

/-! ### When nothing is left -/

theorem resolved_eq_nil_iff (port : UInt16) :
    resolved port eps = [] ↔ ∀ e ∈ eps, e.isV4 = false := by
  unfold resolved
  rw [List.filterMap_eq_nil_iff]
  refine forall₂_congr fun e _ => ?_
  rcases e with - | - | -
  · exact iff_of_true rfl rfl
  · exact iff_of_false nofun nofun
  · exact iff_of_true rfl rfl

theorem merge_eq_nil_iff : zgMergeRootEndpoints root eps = [] ↔
    root.privateEndpoints = [] ∧ ∀ e ∈ eps, e.isV4 = false := by
  rw [zgMergeRootEndpoints_eq, List.append_eq_nil_iff, fresh_eq_nil_iff]
  refine and_congr_right fun hprivate => ?_
  rw [hprivate, ← resolved_eq_nil_iff (firstPort root.stableEndpoints),
    List.eq_nil_iff_forall_not_mem]
  exact forall₂_congr fun x _ => iff_of_false List.not_mem_nil id

/-- A merge that leaves nothing does so again. -/
theorem merge_again_of_eq_nil (h : zgMergeRootEndpoints root eps = []) :
    zgMergeRootEndpoints (root.merged eps) eps = [] := by
  have hprivate : (root.merged eps).privateEndpoints = [] := by
    unfold Root.merged Root.privateEndpoints
    rw [h]
    rfl
  exact merge_eq_nil_iff.mpr ⟨hprivate, (merge_eq_nil_iff.mp h).2⟩

/-- A merge that leaves something does so again. -/
theorem merge_again_ne_nil (h : zgMergeRootEndpoints root eps ≠ []) :
    zgMergeRootEndpoints (root.merged eps) eps ≠ [] := by
  intro hnil
  obtain ⟨hprivate, hv4⟩ := merge_eq_nil_iff.mp hnil
  rw [privateEndpoints_merged] at hprivate
  exact h (merge_eq_nil_iff.mpr ⟨(List.append_eq_nil_iff.mp hprivate).1, hv4⟩)

namespace Topology

variable {ecc : Ecc} {t : Topology} {w w' : World} {a : Address}

/-! ### One refresh -/

theorem refresh_eq_none_iff (h : w.roots = root :: rest) : refresh w eps = none ↔
    zgMergeRootEndpoints root eps = [] ∨ zgMergeRootEndpoints root eps = root.stableEndpoints := by
  unfold refresh
  rw [h]
  dsimp only
  split_ifs with hnil hsame
  · exact iff_of_true rfl (Or.inl hnil)
  · exact iff_of_true rfl (Or.inr (zgSameEndpoints_iff.mp hsame).symm)
  · refine iff_of_false nofun (not_or.mpr ⟨hnil, fun heq => ?_⟩)
    exact hsame (zgSameEndpoints_iff.mpr heq.symm)

/-- **What a refresh makes of a world.** -/
theorem refresh_eq_some (h : w.roots = root :: rest) (hr : refresh w eps = some (a, w')) :
    zgMergeRootEndpoints root eps ≠ [] ∧ w' = { w with roots := root.merged eps :: rest } := by
  unfold refresh at hr
  rw [h] at hr
  dsimp only at hr
  split_ifs at hr with hnil hsame
  obtain ⟨-, rfl⟩ := Prod.mk.inj (Option.some.inj hr)
  refine ⟨hnil, ?_⟩
  unfold World.setRootStableEndpoints
  rw [h]
  rfl

/-! ### The same addresses once more -/

/-- The addresses are settled for the first root of a world. -/
def SettledFirst (w : World) (eps : List InetAddress) : Prop :=
  ∀ root ∈ w.roots.head?, Settled root eps

theorem settledFirst_of_none (h : refresh w eps = none) : SettledFirst w eps := by
  intro root hroot
  obtain ⟨rest, hroots⟩ := List.head?_eq_some_iff.mp hroot
  refine merge_again.mp ?_
  rcases (refresh_eq_none_iff hroots).mp h with hnil | hsame
  · rw [merge_again_of_eq_nil hnil, hnil]
  · have hmerged : root.merged eps = root := by
      unfold Root.merged
      rw [hsame]
    rw [hmerged]

/-- **A second refresh** is none exactly when the addresses are settled. -/
theorem refresh_again (h : refresh w eps = some (a, w')) :
    refresh w' eps = none ↔ SettledFirst w eps := by
  rcases hroots : w.roots with - | ⟨root, rest⟩
  · unfold refresh at h
    rw [hroots] at h
    cases h
  obtain ⟨hne, rfl⟩ := refresh_eq_some hroots h
  have hfirst : SettledFirst w eps ↔ Settled root eps := by
    unfold SettledFirst
    rw [hroots]
    exact ⟨fun h => h root rfl, fun h r hr => Option.some.inj hr ▸ h⟩
  rw [hfirst, ← merge_again, refresh_eq_none_iff rfl]
  exact or_iff_right (merge_again_ne_nil hne)

theorem setPlanetEndpoints_of_none (h : refresh t.planet eps = none) :
    t.setPlanetEndpoints eps = t.unchanged := by
  unfold setPlanetEndpoints
  rw [h]
  exact ite_self _

theorem setPlanetEndpoints_of_some (hset : t.planet.isSet = true)
    (h : refresh t.planet eps = some (a, w)) :
    t.setPlanetEndpoints eps = refreshed .planet w a { t with planet := w } := by
  unfold setPlanetEndpoints
  rw [if_pos hset, h]

/-- **The planet**: the second call does nothing exactly when the addresses are settled. -/
theorem planet_again : (t.setPlanetEndpoints eps).topology.setPlanetEndpoints eps
      = (t.setPlanetEndpoints eps).topology.unchanged ↔
    (t.planet.isSet = true → SettledFirst t.planet eps) := by
  by_cases hset : t.planet.isSet = true
  · rcases h : refresh t.planet eps with - | ⟨a, w⟩
    · rw [setPlanetEndpoints_of_none h]
      exact iff_of_true (setPlanetEndpoints_of_none h) fun _ => settledFirst_of_none h
    · rw [setPlanetEndpoints_of_some hset h, ← refresh_again h]
      have hset' : w.isSet = true := by
        unfold World.isSet
        rw [(refreshes_of_refresh h).type]
        exact hset
      rcases h' : refresh w eps with - | ⟨a', w'⟩
      · exact iff_of_true (setPlanetEndpoints_of_none h') fun _ => rfl
      · refine iff_of_false (fun hsame => ?_) fun hnone => nomatch hnone hset
        have hcall := setPlanetEndpoints_of_some
          (t := (refreshed .planet w a { t with planet := w }).topology) hset' h'
        rw [hcall] at hsame
        exact Bool.noConfusion (congrArg Outcome.returned hsame)
  · have hnothing : t.setPlanetEndpoints eps = t.unchanged := if_neg hset
    rw [hnothing]
    exact iff_of_true hnothing fun h => absurd h hset

theorem find?_replaceMoon {id : UInt64} {moons : List World} {m : World}
    (hm : moons.find? (·.id == id) = some m) (hid : w.id = id) :
    (replaceMoon id w moons).find? (·.id == id) = some w := by
  induction moons with
  | nil => cases hm
  | cons x moons ih =>
      unfold replaceMoon
      split_ifs with hx
      · exact List.find?_cons_of_pos (p := fun m : World => m.id == id) (beq_iff_eq.mpr hid)
      · have hneg : ¬(x.id == id) = true := mt beq_iff_eq.mp hx
        rw [List.find?_cons_of_neg (p := fun m : World => m.id == id) hneg] at hm ⊢
        exact ih hm

theorem setMoonEndpoints_of_none {worldId : UInt64} {m : World}
    (hm : t.moons.find? (·.id == worldId) = some m) (h : refresh m eps = none) :
    t.setMoonEndpoints worldId eps = t.unchanged := by
  unfold setMoonEndpoints
  rw [hm]
  dsimp only
  rw [h]

theorem setMoonEndpoints_of_some {worldId : UInt64} {m : World}
    (hm : t.moons.find? (·.id == worldId) = some m) (h : refresh m eps = some (a, w)) :
    t.setMoonEndpoints worldId eps
      = refreshed .moon w a { t with moons := replaceMoon worldId w t.moons } := by
  unfold setMoonEndpoints
  rw [hm]
  dsimp only
  rw [h]

/-- **A moon**, in the same way. -/
theorem moon_again {worldId : UInt64} :
    (t.setMoonEndpoints worldId eps).topology.setMoonEndpoints worldId eps
      = (t.setMoonEndpoints worldId eps).topology.unchanged ↔
    ∀ m, t.moons.find? (·.id == worldId) = some m → SettledFirst m eps := by
  rcases hm : t.moons.find? (·.id == worldId) with - | m
  · have hnothing : t.setMoonEndpoints worldId eps = t.unchanged := by
      unfold setMoonEndpoints
      rw [hm]
    rw [hnothing, hm]
    exact iff_of_true hnothing fun m h => nomatch h
  · have hforall : (∀ x, some m = some x → SettledFirst x eps) ↔ SettledFirst m eps :=
      ⟨fun h => h m rfl, fun h x hx => Option.some.inj hx ▸ h⟩
    rw [hm, hforall]
    rcases h : refresh m eps with - | ⟨a, w⟩
    · rw [setMoonEndpoints_of_none hm h]
      exact iff_of_true (setMoonEndpoints_of_none hm h) (settledFirst_of_none h)
    · have hid : w.id = worldId := (refreshes_of_refresh h).id.trans (id_of_find? hm)
      have hm' := find?_replaceMoon hm hid
      rw [setMoonEndpoints_of_some hm h, ← refresh_again h]
      rcases h' : refresh w eps with - | ⟨a', w'⟩
      · exact iff_of_true (setMoonEndpoints_of_none hm' h') rfl
      · refine iff_of_false (fun hsame => ?_) nofun
        have hcall := setMoonEndpoints_of_some (t := (refreshed .moon w a
          { t with moons := replaceMoon worldId w t.moons }).topology) hm' h'
        rw [hcall] at hsame
        exact Bool.noConfusion (congrArg Outcome.returned hsame)

/-- **The same addresses once more**: the second call returns false, changes nothing and puts
nothing exactly when they are settled for the first root. -/
theorem refreshed_again_iff (t : Topology) (eps : List InetAddress) (worldId : UInt64) :
    ((t.setPlanetEndpoints eps).topology.setPlanetEndpoints eps
        = (t.setPlanetEndpoints eps).topology.unchanged ↔
      (t.planet.isSet = true → SettledFirst t.planet eps)) ∧
    ((t.setMoonEndpoints worldId eps).topology.setMoonEndpoints worldId eps
        = (t.setMoonEndpoints worldId eps).topology.unchanged ↔
      ∀ m, t.moons.find? (·.id == worldId) = some m → SettledFirst m eps) :=
  ⟨planet_again, moon_again⟩

/-- A node whose planet has one root. -/
def rooted (endpoints : List InetAddress) : Topology where
  identity := ⟨0x0102030405, List.replicate 64 0⟩
  planet := ⟨1, 5, .planet, List.replicate 64 0, List.replicate 96 0,
    [⟨⟨0x0504030201, List.replicate 64 0⟩, endpoints⟩]⟩
  moons := []
  moonSeeds := []
  upstreamAddresses := [0x0504030201]
  amUpstream := false
  peers := .empty 64 Hashtable.buckets_pos

/-- **The order changes**: a private address that was resolved after a public one comes first the
next time. -/
theorem moves_to_front : ¬ ∀ (t : Topology) (eps : List InetAddress),
    (t.setPlanetEndpoints eps).topology.setPlanetEndpoints eps
      = (t.setPlanetEndpoints eps).topology.unchanged := by
  intro h
  have hsecond : (((rooted []).setPlanetEndpoints
      [.v4 0x08080808 9993, .v4 0x0a000001 9993]).topology.setPlanetEndpoints
        [.v4 0x08080808 9993, .v4 0x0a000001 9993]).returned = true := by
    decide +kernel
  rw [h] at hsecond
  cases hsecond

/-! ### A row of calls -/

/-- The root after a row of calls. -/
def mergedAll (root : Root) (calls : List (List InetAddress)) : Root := calls.foldl Root.merged root

theorem mergedAll_concat (root : Root) (calls : List (List InetAddress)) (eps : List InetAddress) :
    mergedAll root (calls ++ [eps]) = (mergedAll root calls).merged eps := by
  unfold mergedAll
  rw [List.foldl_append]
  rfl

theorem identity_mergedAll (root : Root) (calls : List (List InetAddress)) :
    (mergedAll root calls).identity = root.identity := by
  induction calls using List.reverseRecOn with
  | nil => rfl
  | append_singleton calls eps ih =>
      rw [mergedAll_concat]
      exact ih

/-- A call with IPv4 addresses, and at least one. -/
def Usable (eps : List InetAddress) : Prop := eps ≠ [] ∧ ∀ e ∈ eps, e.isV4 = true

theorem merge_ne_nil (h : Usable eps) (root : Root) : zgMergeRootEndpoints root eps ≠ [] := by
  intro hnil
  obtain ⟨e, he⟩ := List.exists_mem_of_ne_nil eps h.1
  exact Bool.false_ne_true (((merge_eq_nil_iff.mp hnil).2 e he).symm.trans (h.2 e he))

/-- **One call**: the first root is merged, and the call returns false when that is no change. -/
theorem planet_call (hset : t.planet.isSet = true) (hroots : t.planet.roots = root :: rest)
    (h : Usable eps) :
    (t.setPlanetEndpoints eps).topology.planet =
    { t.planet with roots := root.merged eps :: rest } ∧
      ((t.setPlanetEndpoints eps).returned = false ↔
        zgMergeRootEndpoints root eps = root.stableEndpoints) := by
  have hnone : refresh t.planet eps = none ↔ zgMergeRootEndpoints root eps = root.stableEndpoints :=
    (refresh_eq_none_iff hroots).trans (or_iff_right (merge_ne_nil h root))
  rcases hr : refresh t.planet eps with - | ⟨a, w⟩
  · rw [setPlanetEndpoints_of_none hr]
    have hsame := hnone.mp hr
    refine ⟨?_, iff_of_true rfl hsame⟩
    unfold Root.merged
    rw [hsame, ← hroots]
    rfl
  · rw [setPlanetEndpoints_of_some hset hr]
    obtain ⟨-, rfl⟩ := refresh_eq_some hroots hr
    refine ⟨rfl, iff_of_false (show ¬true = false by decide) fun hsame => ?_⟩
    exact nomatch hr.symm.trans (hnone.mpr hsame)

/-- **A row of calls** merges the first root once for each. -/
theorem planet_calls (ecc : Ecc) (hset : t.planet.isSet = true)
    (hroots : t.planet.roots = root :: rest) {calls : List (List InetAddress)}
    (h : ∀ eps ∈ calls, Usable eps) :
    ((topology ecc).runState t (calls.map .setPlanetEndpoints)).planet
      = { t.planet with roots := mergedAll root calls :: rest } := by
  induction calls using List.reverseRecOn with
  | nil =>
      show t.planet = { t.planet with roots := root :: rest }
      rw [← hroots]
  | append_singleton calls eps ih =>
      have hplanet := ih fun eps' heps' => h eps' (List.mem_append_left _ heps')
      rw [List.map_append, List.map_singleton, Machine.runState_concat, mergedAll_concat]
      have hset' :
          ((topology ecc).runState t (calls.map .setPlanetEndpoints)).planet.isSet = true := by
        rw [hplanet]
        exact hset
      have hroots' := congrArg World.roots hplanet
      refine (planet_call hset' hroots'
        (h eps (List.mem_append_right _ List.mem_cons_self))).1.trans ?_
      rw [hplanet]

/-! ### What the row of calls leaves -/

variable {e : InetAddress}

/-- An endpoint was resolved in one of the calls, with the port that the root had then. -/
def ResolvedIn (root : Root) (calls : List (List InetAddress)) (e : InetAddress) : Prop :=
  ∃ calls₁ eps calls₂, calls = calls₁ ++ eps :: calls₂ ∧
    e ∈ resolved (firstPort (mergedAll root calls₁).stableEndpoints) eps

theorem resolvedIn_concat {calls : List (List InetAddress)} :
    ResolvedIn root (calls ++ [eps]) e ↔ ResolvedIn root calls e ∨
      e ∈ resolved (firstPort (mergedAll root calls).stableEndpoints) eps := by
  constructor
  · rintro ⟨calls₁, eps', calls₂, hsplit, he⟩
    rcases calls₂.eq_nil_or_concat with rfl | ⟨calls₂, last, rfl⟩
    · obtain ⟨rfl, hlast⟩ := List.append_inj' hsplit rfl
      obtain rfl := (List.cons.inj hlast).1
      exact Or.inr he
    · rw [List.concat_eq_append, ← List.cons_append, ← List.append_assoc] at hsplit
      exact Or.inl ⟨calls₁, eps', calls₂, (List.append_inj' hsplit rfl).1, he⟩
  · rintro (⟨calls₁, eps', calls₂, rfl, he⟩ | he)
    · exact ⟨calls₁, eps', calls₂ ++ [eps], List.append_assoc _ _ _, he⟩
    · exact ⟨calls, eps, [], rfl, he⟩

/-- **The private endpoints** are those of the start and those that were ever resolved. -/
theorem mem_privateEndpoints_mergedAll {calls : List (List InetAddress)} :
    e ∈ (mergedAll root calls).privateEndpoints ↔
      e ∈ root.privateEndpoints ∨ e.isPrivateIPv4 = true ∧ ResolvedIn root calls e := by
  induction calls using List.reverseRecOn with
  | nil =>
      refine (or_iff_left ?_).symm
      rintro ⟨-, calls₁, eps, calls₂, hsplit, -⟩
      exact List.append_ne_nil_of_right_ne_nil calls₁ (List.cons_ne_nil eps calls₂) hsplit.symm
  | append_singleton calls eps ih =>
      rw [mergedAll_concat, privateEndpoints_merged, List.mem_append, List.mem_filter, mem_fresh,
        resolvedIn_concat]
      constructor
      · rintro (h | ⟨⟨hresolved, -⟩, hprivate⟩)
        · exact (ih.mp h).imp_right fun h => ⟨h.1, Or.inl h.2⟩
        · exact Or.inr ⟨hprivate, Or.inr hresolved⟩
      · rintro (h | ⟨hprivate, h | hresolved⟩)
        · exact Or.inl (ih.mpr (Or.inl h))
        · exact Or.inl (ih.mpr (Or.inr ⟨hprivate, h⟩))
        · by_cases hin : e ∈ (mergedAll root calls).privateEndpoints
          · exact Or.inl hin
          · exact Or.inr ⟨⟨hresolved, hin⟩, hprivate⟩

/-- None is there more often than once, or than at the start. -/
theorem count_privateEndpoints_mergedAll (root : Root) (calls : List (List InetAddress))
    (e : InetAddress) : max 1 ((mergedAll root calls).privateEndpoints.count e)
      = max 1 (root.privateEndpoints.count e) := by
  induction calls using List.reverseRecOn with
  | nil => rfl
  | append_singleton calls eps ih =>
      rw [← ih, mergedAll_concat, privateEndpoints_merged, List.count_append]
      by_cases hin : e ∈ (mergedAll root calls).privateEndpoints
      · rw [List.count_eq_zero.mpr fun h => (mem_fresh.mp (List.mem_of_mem_filter h)).2 hin,
          Nat.add_zero]
      · have hnodup := (nodup_fresh (mergedAll root calls).privateEndpoints
          (resolved (firstPort (mergedAll root calls).stableEndpoints) eps)).filter
            InetAddress.isPrivateIPv4
        have hle := List.nodup_iff_count_le_one.mp hnodup e
        rw [List.count_eq_zero.mpr hin, Nat.zero_add, max_eq_left hle]
        rfl

/-- **The endpoints** after the last call: private ones of every call, and those of the last. -/
theorem mem_merge_mergedAll {init : List (List InetAddress)} {last : List InetAddress} :
    e ∈ zgMergeRootEndpoints (mergedAll root init) last ↔ e ∈ root.privateEndpoints ∨
      ∃ calls₁ eps calls₂, init ++ [last] = calls₁ ++ eps :: calls₂ ∧
        (e.isPrivateIPv4 = true ∨ calls₂ = []) ∧
        e ∈ resolved (firstPort (mergedAll root calls₁).stableEndpoints) eps := by
  rw [mem_merge, mem_privateEndpoints_mergedAll]
  constructor
  · rintro ((he | ⟨hprivate, calls₁, eps, calls₂, rfl, he⟩) | he)
    · exact Or.inl he
    · exact Or.inr ⟨calls₁, eps, calls₂ ++ [last], List.append_assoc _ _ _, Or.inl hprivate, he⟩
    · exact Or.inr ⟨init, last, [], rfl, Or.inr rfl, he⟩
  · rintro (he | ⟨calls₁, eps, calls₂, hsplit, hlast, he⟩)
    · exact Or.inl (Or.inl he)
    · rcases calls₂.eq_nil_or_concat with rfl | ⟨calls₂, x, rfl⟩
      · obtain ⟨rfl, heps⟩ := List.append_inj' hsplit rfl
        obtain rfl := (List.cons.inj heps).1
        exact Or.inr he
      · have hprivate := hlast.resolve_right (by rw [List.concat_eq_append]; simp)
        rw [List.concat_eq_append, ← List.cons_append, ← List.append_assoc] at hsplit
        exact Or.inl (Or.inr ⟨hprivate, calls₁, eps, calls₂, (List.append_inj' hsplit rfl).1, he⟩)

/-- The port that addresses without one take. -/
def rootPort (t : Topology) : UInt16 :=
  firstPort (t.planet.roots.head?.elim [] Root.stableEndpoints)

theorem rootPort_run (ecc : Ecc) (hset : t.planet.isSet = true)
    (hroots : t.planet.roots = root :: rest) {calls : List (List InetAddress)}
    (h : ∀ eps ∈ calls, Usable eps) :
    ((topology ecc).runState t (calls.map .setPlanetEndpoints)).rootPort
      = firstPort (mergedAll root calls).stableEndpoints := by
  rw [rootPort, planet_calls ecc hset hroots h]
  rfl

/-- Without roots nothing happens. -/
theorem run_of_no_roots (ecc : Ecc) (h : t.planet.isSet = false ∨ t.planet.roots = [])
    (calls : List (List InetAddress)) :
    (topology ecc).runState t (calls.map .setPlanetEndpoints) = t := by
  have hcall : ∀ eps, t.setPlanetEndpoints eps = t.unchanged := by
    intro eps
    rcases h with hset | hroots
    · exact if_neg (by rw [hset]; exact Bool.false_ne_true)
    · refine setPlanetEndpoints_of_none ?_
      unfold refresh
      rw [hroots]
  induction calls with
  | nil => rfl
  | cons eps calls ih =>
      have hstep : ((topology ecc).step t (.setPlanetEndpoints eps)).1 = t :=
        congrArg Outcome.topology (hcall eps)
      rw [List.map_cons, Machine.runState_cons, hstep]
      exact ih

/-- **A row of refreshes**, each with IPv4 addresses, of a planet that has roots: the first root
ends up with its private endpoints of the start, the private ones of every call and those of the
last call, each once or as often as at the start; nothing else changes; and a call returns false
exactly when the merge is what the root has.  Without roots nothing happens. -/
theorem endpoints_run (ecc : Ecc) (t : Topology) {calls : List (List InetAddress)}
    (hne : calls ≠ []) (h : ∀ eps ∈ calls, Usable eps) :
    (∀ root rest, t.planet.isSet = true → t.planet.roots = root :: rest →
      (∃ endpoints, ((topology ecc).runState t (calls.map .setPlanetEndpoints)).planet
          = { t.planet with roots := { root with stableEndpoints := endpoints } :: rest } ∧
        (∀ e, e ∈ endpoints ↔ e ∈ root.privateEndpoints ∨
          ∃ calls₁ eps calls₂, calls = calls₁ ++ eps :: calls₂ ∧
            (e.isPrivateIPv4 = true ∨ calls₂ = []) ∧
            e ∈ resolved
              ((topology ecc).runState t (calls₁.map .setPlanetEndpoints)).rootPort eps) ∧
        ∀ e ∈ endpoints, endpoints.count e = max 1 (root.privateEndpoints.count e)) ∧
      ∀ calls₁ eps calls₂, calls = calls₁ ++ eps :: calls₂ →
        ∀ r ∈ ((topology ecc).runState t (calls₁.map .setPlanetEndpoints)).planet.roots.head?,
          (((topology ecc).runState t (calls₁.map .setPlanetEndpoints)).setPlanetEndpoints
              eps).returned = false ↔ zgMergeRootEndpoints r eps = r.stableEndpoints) ∧
    (t.planet.isSet = false ∨ t.planet.roots = [] →
      (topology ecc).runState t (calls.map .setPlanetEndpoints) = t) := by
  refine ⟨fun root rest hset hroots => ⟨?_, ?_⟩, fun hnone => run_of_no_roots ecc hnone calls⟩
  · obtain ⟨init, last, rfl⟩ := (List.eq_nil_or_concat calls).resolve_left hne
    rw [List.concat_eq_append] at h ⊢
    have hmerged : mergedAll root (init ++ [last])
        = { root with stableEndpoints := zgMergeRootEndpoints (mergedAll root init) last } := by
      rw [mergedAll_concat, Root.merged, identity_mergedAll]
    refine ⟨zgMergeRootEndpoints (mergedAll root init) last, ?_, fun e => ?_, fun e he => ?_⟩
    · rw [planet_calls ecc hset hroots h, hmerged]
    · rw [mem_merge_mergedAll]
      refine or_congr_right (exists_congr fun calls₁ => exists_congr fun eps =>
        exists_congr fun calls₂ => and_congr_right fun hsplit => and_congr_right fun _ => ?_)
      rw [rootPort_run ecc hset hroots fun eps' heps' =>
        h eps' (hsplit ▸ List.mem_append_left _ heps')]
    · rw [count_merge he, count_privateEndpoints_mergedAll]
  · rintro calls₁ eps calls₂ rfl r hr
    have hplanet :=
      planet_calls ecc hset hroots fun eps' heps' => h eps' (List.mem_append_left _ heps')
    rw [hplanet] at hr
    obtain rfl := Option.some.inj hr
    refine (planet_call ?_ (congrArg World.roots hplanet) (h eps ?_)).2
    · rw [hplanet]
      exact hset
    · exact List.mem_append_right _ List.mem_cons_self

/-- A private address that was resolved once stays; a public one goes. -/
theorem endpoints_run_sample :
    (∃ endpoints,
      ((topology ⟨fun _ _ _ => true, fun data => data⟩).runState (rooted [.v4 0x08080404 9993])
      ([[.v4 0x0a000001 0, .v4 0x08080808 0], [.v4 0x01010101 0]].map .setPlanetEndpoints)).planet
        = { (rooted [.v4 0x08080404 9993]).planet with
            roots := [⟨⟨0x0504030201, List.replicate 64 0⟩, endpoints⟩] } ∧
      ∀ e ∈ endpoints, endpoints.count e = 1) := by
  have husable : ∀ eps ∈ ([[.v4 0x0a000001 0, .v4 0x08080808 0], [.v4 0x01010101 0]] :
      List (List InetAddress)), Usable eps := by
    intro eps heps
    rcases List.mem_cons.mp heps with rfl | heps
    · exact ⟨List.cons_ne_nil _ _, by decide⟩
    · rw [List.mem_singleton.mp heps]
      exact ⟨List.cons_ne_nil _ _, by decide⟩
  obtain ⟨endpoints, hplanet, -, hcount⟩ := ((endpoints_run ⟨fun _ _ _ => true, fun data => data⟩
    (rooted [.v4 0x08080404 9993]) (List.cons_ne_nil _ _) husable).1 _ _ rfl rfl).1
  exact ⟨endpoints, hplanet, fun e he => (hcount e he).trans rfl⟩

end Topology

end ZGalaxy
