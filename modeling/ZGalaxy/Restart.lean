/-
ZGalaxy/Restart.lean

What a refresh of endpoints stores is not always what a restart can load.

The reader takes at most thirty-two endpoints of a root, while a refresh keeps every private
endpoint and adds every resolved one, however many there are.  The world that is put is read
back as it was exactly when they are at most thirty-two (`wellFormed_merged_iff`); else the file
is refused, and after a restart there is no planet at all.

Main result: `restored_iff`, for the planet and for moons; `not_restored` are thirty-three
resolved addresses.
-/
import ZGalaxy.Refresh

namespace ZGalaxy

open ByteList Fresh

variable {ecc : Ecc} {root : Root} {rest : List Root} {eps : List InetAddress}

/-- The private endpoints of a root and the resolved ones that are not among them are few enough
to be read. -/
def Fits (root : Root) (eps : List InetAddress) : Prop :=
  root.privateEndpoints.length + ((resolved (firstPort root.stableEndpoints) eps).toFinset
    \ root.privateEndpoints.toFinset).card ≤ worldMaxStableEndpointsPerRoot

theorem length_merge (root : Root) (eps : List InetAddress) :
    (zgMergeRootEndpoints root eps).length = root.privateEndpoints.length
      + ((resolved (firstPort root.stableEndpoints) eps).toFinset
        \ root.privateEndpoints.toFinset).card := by
  rw [zgMergeRootEndpoints_eq, List.length_append, length_fresh]

/-- **A refreshed world can be read** exactly when its first root's endpoints fit. -/
theorem wellFormed_merged_iff {w : World} (h : w.WellFormed) (hroots : w.roots = root :: rest) :
    ({ w with roots := root.merged eps :: rest } : World).WellFormed ↔ Fits root eps := by
  unfold Fits
  rw [← length_merge]
  constructor
  · intro hmerged
    exact (hmerged.roots (root.merged eps) List.mem_cons_self).endpoints
  · intro hfits
    have hroot := h.roots root (hroots ▸ List.mem_cons_self)
    refine ⟨h.updatesMustBeSignedBy, h.signature, ?_, fun r hr => ?_⟩
    · show (root.merged eps :: rest).length ≤ worldMaxRoots
      have hnum := h.numRoots
      rwa [hroots] at hnum
    · rcases List.mem_cons.mp hr with rfl | hr
      · exact ⟨hroot.publicKey, hfits⟩
      · exact h.roots r (hroots ▸ List.mem_cons_of_mem root hr)

namespace Topology

variable {t t₀ : Topology} {w : World} {a : Address}

/-- The resolved addresses fit with the first root of a world. -/
def FitsFirst (w : World) (eps : List InetAddress) : Prop := ∀ root ∈ w.roots.head?, Fits root eps

theorem wellFormed_refresh_iff {w' : World} (h : w.WellFormed)
    (hr : refresh w eps = some (a, w')) : w'.WellFormed ↔ FitsFirst w eps := by
  rcases hroots : w.roots with - | ⟨root, rest⟩
  · unfold refresh at hr
    rw [hroots] at hr
    cases hr
  · obtain ⟨-, rfl⟩ := refresh_eq_some hroots hr
    rw [wellFormed_merged_iff h hroots]
    unfold FitsFirst
    rw [hroots]
    exact ⟨fun h r hr => Option.some.inj hr ▸ h, fun h => h root rfl⟩

/-! ### Put and loaded -/

/-- What is put can be loaded again, for a world that can be read. -/
theorem persist_of_wellFormed (type : StateObject) (h : w.WellFormed) :
    persist type w = [.stateObjectPut type w.id (w.bytes false)] := by
  unfold persist
  rw [World.serialize_of_wellFormed h]

theorem loadWorld_bytes (h : w.WellFormed) : loadWorld (w.bytes false) = some w := by
  unfold loadWorld
  have hserialize := World.serialize_of_wellFormed h
  unfold World.serialize at hserialize
  split_ifs at hserialize with hlong
  rw [if_neg, World.deserialize_bytes h]
  · rfl
  · rintro (hnil | hlength)
    · have hlength := congrArg List.length hnil
      simp [World.bytes] at hlength
    · exact hlong hlength

/-- The constructor takes a stored planet. -/
theorem planet_new {stored : Bytes} (h : loadWorld stored = some w) (htype : w.type = .planet)
    (identity : Identity) : (new ecc identity stored).planet = w := by
  unfold new
  rw [h]
  dsimp only
  unfold addWorld
  rw [htype]
  rfl

/-- `addMoon` takes a stored moon that the node does not have. -/
theorem find?_addMoon {stored : Bytes} (h : loadWorld stored = some w) (htype : w.type = .moon)
    (hnone : t.moons.find? (·.id == w.id) = none) (seed : Address) :
    (t.addMoon ecc w.id seed stored).1.moons.find? (·.id == w.id) = some w := by
  have hload : loadMoon w.id stored = some w := by
    unfold loadMoon
    rw [h]
    simp [Option.filter, htype]
  have hadd : addWorld ecc t w true = .ok (added .moon w { t with moons := t.moons ++ [w] }) := by
    unfold addWorld
    rw [htype]
    dsimp only
    rw [hnone]
    rfl
  unfold addMoon
  rw [hload]
  dsimp only
  rw [hadd]
  show (t.moons ++ [w]).find? (·.id == w.id) = some w
  rw [List.find?_append, hnone, Option.none_or]
  exact List.find?_cons_of_pos (p := fun m : World => m.id == w.id) (beq_iff_eq.mpr rfl)

/-! ### Restarting -/

/-- A restart after a refresh has the planet that the node had. -/
def PlanetRestored (ecc : Ecc) (t : Topology) (eps : List InetAddress) : Prop :=
  ∃ data, (t.setPlanetEndpoints eps).outputs = [.stateObjectPut .planet t.planet.id data] ∧
    World.deserialize data = .ok (t.setPlanetEndpoints eps).topology.planet ∧
    (new ecc t.identity data).planet = (t.setPlanetEndpoints eps).topology.planet

/-- Adding a moon after a refresh, to a node that does not have it, gives the moon that there was.
-/
def MoonRestored (ecc : Ecc) (t : Topology) (worldId : UInt64) (eps : List InetAddress)
    (t₀ : Topology) (seed : Address) : Prop :=
  ∃ data moon, (t.setMoonEndpoints worldId eps).outputs = [.stateObjectPut .moon worldId data] ∧
    (t.setMoonEndpoints worldId eps).topology.moons.find? (·.id == worldId) = some moon ∧
    World.deserialize data = .ok moon ∧
    (t₀.addMoon ecc worldId seed data).1.moons.find? (·.id == worldId) = some moon

/-- **The planet.** -/
theorem planet_restored_iff (h : t.planet.WellFormed) (htype : t.planet.type = .planet)
    (hret : (t.setPlanetEndpoints eps).returned = true) :
    PlanetRestored ecc t eps ↔ FitsFirst t.planet eps := by
  have hset : t.planet.isSet = true := by
    unfold World.isSet
    rw [htype]
    rfl
  rcases hr : refresh t.planet eps with - | ⟨a, w⟩
  · rw [setPlanetEndpoints_of_none hr] at hret
    cases hret
  have hkept := refreshes_of_refresh hr
  rw [← wellFormed_refresh_iff h hr]
  unfold PlanetRestored
  rw [setPlanetEndpoints_of_some hset hr]
  constructor
  · rintro ⟨data, -, hread, -⟩
    exact World.wellFormed_of_deserialize hread
  · intro hw
    refine ⟨w.bytes false, ?_, World.deserialize_bytes hw, ?_⟩
    · rw [← hkept.id, refreshed]
      rw [persist_of_wellFormed .planet hw]
    · exact planet_new (loadWorld_bytes hw) (hkept.type.trans htype) t.identity

/-- **A moon.** -/
theorem moon_restored_iff {worldId : UInt64} {m : World}
    (hm : t.moons.find? (·.id == worldId) = some m) (h : m.WellFormed) (htype : m.type = .moon)
    (hret : (t.setMoonEndpoints worldId eps).returned = true)
    (hnone : t₀.moons.find? (·.id == worldId) = none) (seed : Address) :
    MoonRestored ecc t worldId eps t₀ seed ↔ FitsFirst m eps := by
  rcases hr : refresh m eps with - | ⟨a, w⟩
  · rw [setMoonEndpoints_of_none hm hr] at hret
    cases hret
  have hkept := refreshes_of_refresh hr
  have hid : w.id = worldId := hkept.id.trans (id_of_find? hm)
  rw [← wellFormed_refresh_iff h hr]
  unfold MoonRestored
  rw [setMoonEndpoints_of_some hm hr]
  constructor
  · rintro ⟨data, moon, -, hfind, hread, -⟩
    obtain rfl := Option.some.inj ((find?_replaceMoon hm hid).symm.trans hfind)
    exact World.wellFormed_of_deserialize hread
  · intro hw
    refine ⟨w.bytes false, w, ?_, find?_replaceMoon hm hid, World.deserialize_bytes hw, ?_⟩
    · rw [← hid, refreshed]
      rw [persist_of_wellFormed .moon hw]
    · subst hid
      exact find?_addMoon (loadWorld_bytes hw) (hkept.type.trans htype) hnone seed

/-- **A refresh survives a restart** exactly when the endpoints fit, for a planet and for a moon
that were read. -/
theorem restored_iff (ecc : Ecc) (t : Topology) (eps : List InetAddress) :
    (∀ b, World.deserialize b = .ok t.planet → t.planet.type = .planet →
      (t.setPlanetEndpoints eps).returned = true →
      (PlanetRestored ecc t eps ↔ FitsFirst t.planet eps)) ∧
    ∀ worldId m b t₀ seed, t.moons.find? (·.id == worldId) = some m →
      World.deserialize b = .ok m → m.type = .moon →
      (t.setMoonEndpoints worldId eps).returned = true →
      t₀.moons.find? (·.id == worldId) = none →
      (MoonRestored ecc t worldId eps t₀ seed ↔ FitsFirst m eps) := by
  constructor
  · intro b hread htype hret
    exact planet_restored_iff (World.wellFormed_of_deserialize hread) htype hret
  · intro worldId m b t₀ seed hm hread htype hret hnone
    exact moon_restored_iff hm (World.wellFormed_of_deserialize hread) htype hret hnone seed

theorem wellFormed_rooted (endpoints : List InetAddress)
    (h : endpoints.length ≤ worldMaxStableEndpointsPerRoot) :
    (rooted endpoints).planet.WellFormed := by
  refine ⟨List.length_replicate, List.length_replicate, show 1 ≤ 4 by norm_num, fun r hr => ?_⟩
  rw [List.mem_singleton.mp hr]
  exact ⟨List.length_replicate, h⟩

/-- One resolved address is read back. -/
theorem restored_iff_sample :
    PlanetRestored ⟨fun _ _ _ => true, fun data => data⟩ (rooted []) [.v4 0x08080808 9993] := by
  have hwell := wellFormed_rooted [] (Nat.zero_le _)
  have hret : ((rooted []).setPlanetEndpoints [.v4 0x08080808 9993]).returned = true := by
    decide +kernel
  refine ((restored_iff _ _ _).1 _
    (World.deserialize_bytes hwell) rfl hret).mpr fun root hroot => ?_
  obtain rfl := Option.some.inj hroot
  show (0 : ℕ) + _ ≤ 32
  decide +kernel

/-- Addresses without a port, and none of them private. -/
def thirtyThree : List InetAddress :=
  (List.range 33).map fun i => .v4 (BitVec.ofNat 32 (0x08080800 + i)) 0

/-- **Thirty-three addresses** leave a planet that cannot be read. -/
theorem not_restored : ¬ ∀ (ecc : Ecc) (t : Topology) (eps : List InetAddress) (b : Bytes),
    World.deserialize b = .ok t.planet → t.planet.type = .planet →
    (t.setPlanetEndpoints eps).returned = true → PlanetRestored ecc t eps := by
  intro h
  have hwell := wellFormed_rooted [] (Nat.zero_le _)
  have hret : ((rooted []).setPlanetEndpoints thirtyThree).returned = true := by decide +kernel
  have hrestored :=
    h ⟨fun _ _ _ => true, fun data => data⟩ _ _ _ (World.deserialize_bytes hwell) rfl hret
  have hfits := (planet_restored_iff hwell rfl hret).mp hrestored _ rfl
  unfold Fits at hfits
  rw [← length_merge] at hfits
  have hlength : (zgMergeRootEndpoints ⟨⟨0x0504030201, List.replicate 64 0⟩, []⟩ thirtyThree).length
      = 33 := by
    decide +kernel
  rw [hlength] at hfits
  exact absurd hfits (by decide)

end Topology

end ZGalaxy
