/-
ZGalaxy/RootPolicy.lean

Which endpoints are allowed for a root, and which a root is contacted at.

`isProhibitedEndpoint` and `getRootsToContact` walk the planet and the moons apart: the one stops at
the first root that allows the endpoint, the other gathers endpoints by address without duplicates
and leaves the node itself out.  Both come down to the roots of an address
(`isProhibitedEndpoint_eq_false_iff`, `mem_endpointsToContact`), which is why they agree.

Main result: `root_policy`.
-/
import ZGalaxy.Upstreams

namespace ZGalaxy

open Fresh

/-! ### Allowing -/

/-- One of the two loops of `Topology::isProhibitedEndpoint` finds that the endpoint is allowed. -/
def allows (roots : List Root) (ztaddr : Address) (ipaddr : InetAddress) : Bool :=
  roots.any fun r =>
    -- no stable endpoints specified, so allow dynamic paths
    r.identity.address == ztaddr &&
      (r.stableEndpoints.isEmpty || r.stableEndpoints.any fun e => ipaddr.ipsEqual e)

/-- One turn of the loops of `Topology::getRootsToContact` over roots. -/
def contactRoot (me : Identity) (eps : Hashtable Address (List InetAddress)) (i : Root) :
    Hashtable Address (List InetAddress) :=
  if i.identity = me then eps
  else eps.modify i.identity.address fun ips =>
    i.stableEndpoints.foldl (fun ips j => if j ∈ ips then ips else ips ++ [j]) ips

namespace Topology

/-- `Topology::isProhibitedEndpoint` -/
def isProhibitedEndpoint (t : Topology) (ztaddr : Address) (ipaddr : InetAddress) : Bool :=
  if t.upstreamAddresses.contains ztaddr then
    !(allows t.planet.roots ztaddr ipaddr || t.moons.any fun m => allows m.roots ztaddr ipaddr)
  else false

/-- `Topology::getRootsToContact` -/
def getRootsToContact (t : Topology) (eps : Hashtable Address (List InetAddress)) :
    Hashtable Address (List InetAddress) :=
  let ofPlanet := t.planet.roots.foldl (contactRoot t.identity) eps
  let ofMoons := t.moons.foldl (fun eps m => m.roots.foldl (contactRoot t.identity) eps) ofPlanet
  -- a seed is contacted without endpoints
  t.moonSeeds.foldl (fun eps m => eps.modify m.2 id) ofMoons

/-- The endpoints that the node contacts an upstream at: what is listed for it in an empty table. -/
def endpointsToContact (t : Topology) (ztaddr : Address) : List InetAddress :=
  ((t.getRootsToContact (.empty 64 Hashtable.buckets_pos)).get ztaddr).getD []

variable {t : Topology} {z : Address} {a e : InetAddress}

/-! ### By the roots of an address -/

theorem allows_iff {roots : List Root} :
    allows roots z a = true ↔ ∃ r ∈ roots, r.identity.address = z ∧
      (r.stableEndpoints = [] ∨ ∃ e ∈ r.stableEndpoints, a.ipsEqual e = true) := by
  unfold allows
  rw [List.any_eq_true]
  refine exists_congr fun r => and_congr_right fun _ => ?_
  rw [Bool.and_eq_true, beq_iff_eq, Bool.or_eq_true, List.isEmpty_iff, List.any_eq_true]

/-- **What is allowed for an upstream** is what one of its roots allows. -/
theorem isProhibitedEndpoint_eq_false_iff (hz : z ∈ t.upstreamAddresses) :
    t.isProhibitedEndpoint z a = false ↔ ∃ r ∈ t.roots, r.identity.address = z ∧
      (r.stableEndpoints = [] ∨ ∃ e ∈ r.stableEndpoints, a.ipsEqual e = true) := by
  have hmoons : (t.moons.any fun m => allows m.roots z a) =
      allows (t.moons.flatMap World.roots) z a := by
    unfold allows
    rw [List.any_flatMap]
  have hroots : (allows t.planet.roots z a || allows (t.moons.flatMap World.roots) z a) =
      allows t.roots z a := List.any_append.symm
  rw [isProhibitedEndpoint, if_pos (List.contains_iff_mem.mpr hz), hmoons, hroots,
    Bool.not_eq_false', allows_iff]

/-- What is listed for an address. -/
def listed (eps : Hashtable Address (List InetAddress)) (z : Address) : List InetAddress :=
  (eps.get z).getD []

/-- A turn lists the endpoints of a root that is not the node. -/
theorem mem_listed_contactRoot {me : Identity} {eps : Hashtable Address (List InetAddress)}
    {i : Root} :
    e ∈ listed (contactRoot me eps i) z ↔
      e ∈ listed eps z ∨ (i.identity ≠ me ∧ i.identity.address = z ∧ e ∈ i.stableEndpoints) := by
  unfold contactRoot
  by_cases hme : i.identity = me
  · rw [if_pos hme]
    exact (or_iff_left fun h => h.1 hme).symm
  · rw [if_neg hme]
    unfold listed
    rw [Hashtable.get_modify]
    by_cases hz : z = i.identity.address
    · subst hz
      rw [if_pos rfl, foldl_push]
      show e ∈ listed eps i.identity.address ++ _ ↔ e ∈ listed eps i.identity.address ∨ _
      rw [List.mem_append, mem_fresh]
      constructor
      · rintro (hold | ⟨hnew, _⟩)
        · exact .inl hold
        · exact .inr ⟨hme, rfl, hnew⟩
      · rintro (hold | ⟨_, _, hnew⟩)
        · exact .inl hold
        · by_cases hold : e ∈ listed eps i.identity.address
          · exact .inl hold
          · exact .inr ⟨hnew, hold⟩
    · rw [if_neg hz]
      exact (or_iff_left fun h => hz h.2.1.symm).symm

theorem mem_listed_foldl_contactRoot {me : Identity} {eps : Hashtable Address (List InetAddress)}
    {roots : List Root} :
    e ∈ listed (roots.foldl (contactRoot me) eps) z ↔
      e ∈ listed eps z ∨ ∃ r ∈ roots, r.identity ≠ me ∧ r.identity.address = z ∧
        e ∈ r.stableEndpoints := by
  induction roots generalizing eps with
  | nil => simp
  | cons r roots ih =>
      rw [List.foldl_cons, ih, mem_listed_contactRoot, List.exists_mem_cons_iff, or_assoc]

/-- A seed lists nothing. -/
theorem listed_foldl_seeds {seeds : List (UInt64 × Address)}
    {eps : Hashtable Address (List InetAddress)} :
    listed (seeds.foldl (fun eps m => eps.modify m.2 id) eps) z = listed eps z := by
  induction seeds generalizing eps with
  | nil => rfl
  | cons m seeds ih =>
      rw [List.foldl_cons, ih]
      unfold listed
      rw [Hashtable.get_modify]
      by_cases hz : z = m.2
      · rw [if_pos hz, hz]
        rfl
      · rw [if_neg hz]

/-- **Where an upstream is contacted**: at the endpoints of its roots, the node itself left out. -/
theorem mem_endpointsToContact :
    e ∈ t.endpointsToContact z ↔
      ∃ r ∈ t.roots, r.identity ≠ t.identity ∧ r.identity.address = z ∧
        e ∈ r.stableEndpoints := by
  have hempty : listed (.empty 64 Hashtable.buckets_pos) z = [] := by
    unfold listed
    rw [Hashtable.get_empty]
    rfl
  show e ∈ listed (t.getRootsToContact _) z ↔ _
  unfold getRootsToContact
  rw [listed_foldl_seeds, ← List.foldl_flatMap, ← List.foldl_append]
  show e ∈ listed (t.roots.foldl (contactRoot t.identity) _) z ↔ _
  rw [mem_listed_foldl_contactRoot, hempty]
  exact or_iff_right List.not_mem_nil

/-! ### Agreement -/

/-- A root that is at another address than the node is not the node. -/
theorem identity_ne_of_address {r : Root} (hr : r.identity.address = z)
    (hz : z ≠ t.identity.address) : r.identity ≠ t.identity := by
  intro h
  exact hz (by rw [← hr, h])

/-- An endpoint of a root is allowed for it. -/
theorem isProhibitedEndpoint_of_mem {r : Root} (hr : r ∈ t.roots) (hrz : r.identity.address = z)
    (he : e ∈ r.stableEndpoints) : t.isProhibitedEndpoint z e = false := by
  by_cases hz : z ∈ t.upstreamAddresses
  · have hself : e.ipsEqual e = true := by
      have h := (InetAddress.eq_iff e e).mpr rfl
      exact (Bool.and_eq_true _ _ ▸ h).1
    exact (isProhibitedEndpoint_eq_false_iff hz).mpr ⟨r, hr, hrz, .inr ⟨e, he, hself⟩⟩
  · rw [isProhibitedEndpoint, if_neg fun hmem => hz (List.contains_iff_mem.mp hmem)]

/-- What a refresh leaves at the head of the roots. -/
theorem refresh_head {w w' : World} {eps : List InetAddress} {address : Address} {root : Root}
    (h : refresh w eps = some (address, w')) (hroot : w.roots.head? = some root) :
    { root with stableEndpoints := zgMergeRootEndpoints root eps } ∈ w'.roots := by
  unfold refresh at h
  rcases hroots : w.roots with - | ⟨r, roots⟩
  · rw [hroots] at hroot
    cases hroot
  · rw [hroots] at h hroot
    obtain rfl := Option.some.inj hroot
    dsimp only at h
    split_ifs at h
    obtain ⟨-, rfl⟩ := Prod.mk.inj (Option.some.inj h)
    rw [World.setRootStableEndpoints, hroots]
    exact List.mem_cons_self

theorem mem_replaceMoon {moons : List World} {m w : World} {id : UInt64}
    (h : moons.find? (fun m => m.id == id) = some m) : w ∈ replaceMoon id w moons := by
  induction moons with
  | nil => cases h
  | cons m' moons ih =>
      unfold replaceMoon
      by_cases hid : m'.id = id
      · rw [if_pos hid]
        exact List.mem_cons_self
      · rw [if_neg hid]
        rw [List.find?_cons_of_neg (by simpa using hid)] at h
        exact List.mem_cons_of_mem _ (ih h)

/-- What `setPlanetEndpoints` installs is allowed. -/
theorem installed_planet {eps : List InetAddress} {root : Root}
    (hset : (t.setPlanetEndpoints eps).returned = true)
    (hroot : t.planet.roots.head? = some root) (he : e ∈ zgMergeRootEndpoints root eps) :
    (t.setPlanetEndpoints eps).topology.isProhibitedEndpoint root.identity.address e = false := by
  unfold setPlanetEndpoints at hset ⊢
  split_ifs at hset ⊢ with hplanet
  · rcases hrefresh : refresh t.planet eps with - | ⟨address, planet⟩
    · rw [hrefresh] at hset
      cases hset
    · have hmem := List.mem_append_left (t.moons.flatMap World.roots) (refresh_head hrefresh hroot)
      exact isProhibitedEndpoint_of_mem hmem rfl he
  · cases hset

/-- What `setMoonEndpoints` installs is allowed. -/
theorem installed_moon {worldId : UInt64} {eps : List InetAddress} {m : World} {root : Root}
    (hset : (t.setMoonEndpoints worldId eps).returned = true)
    (hfind : t.moons.find? (fun m => m.id == worldId) = some m)
    (hroot : m.roots.head? = some root) (he : e ∈ zgMergeRootEndpoints root eps) :
    (t.setMoonEndpoints worldId eps).topology.isProhibitedEndpoint root.identity.address e =
      false := by
  unfold setMoonEndpoints at hset ⊢
  rw [hfind] at hset ⊢
  dsimp only at hset ⊢
  rcases hrefresh : refresh m eps with - | ⟨address, moon⟩
  · rw [hrefresh] at hset
    cases hset
  · have hmem : { root with stableEndpoints := zgMergeRootEndpoints root eps } ∈
        (replaceMoon worldId moon t.moons).flatMap World.roots :=
      List.mem_flatMap.mpr ⟨moon, mem_replaceMoon hfind, refresh_head hrefresh hroot⟩
    exact isProhibitedEndpoint_of_mem (List.mem_append_right t.planet.roots hmem) rfl he

/-- **The endpoint policy of roots is one policy.**  What is allowed for an upstream is what it is
contacted at, and anything where a root has no endpoints; so what the node contacts is never
prohibited, nor what a refresh has installed. -/
theorem root_policy (t : Topology) :
    (∀ z a, z ∈ t.upstreamAddresses → z ≠ t.identity.address →
      (t.isProhibitedEndpoint z a = false ↔
        (∃ r ∈ t.roots, r.identity.address = z ∧ r.stableEndpoints = []) ∨
        ∃ e ∈ t.endpointsToContact z, a.ipsEqual e = true)) ∧
    (∀ z, ∀ e ∈ t.endpointsToContact z, t.isProhibitedEndpoint z e = false) ∧
    (∀ eps root, (t.setPlanetEndpoints eps).returned = true →
      t.planet.roots.head? = some root → ∀ e ∈ zgMergeRootEndpoints root eps,
        (t.setPlanetEndpoints eps).topology.isProhibitedEndpoint root.identity.address e =
          false) ∧
    (∀ worldId eps m root, (t.setMoonEndpoints worldId eps).returned = true →
      t.moons.find? (fun m => m.id == worldId) = some m → m.roots.head? = some root →
      ∀ e ∈ zgMergeRootEndpoints root eps,
        (t.setMoonEndpoints worldId eps).topology.isProhibitedEndpoint root.identity.address e =
          false) := by
  refine ⟨fun z a hz hme => ?_, fun z e he => ?_, fun eps root hset hroot e he =>
    installed_planet hset hroot he, fun worldId eps m root hset hfind hroot e he =>
    installed_moon hset hfind hroot he⟩
  · rw [isProhibitedEndpoint_eq_false_iff hz]
    constructor
    · rintro ⟨r, hr, hrz, hempty | ⟨e, he, hae⟩⟩
      · exact .inl ⟨r, hr, hrz, hempty⟩
      · -- the node itself is the one root that is not contacted
        have hne := identity_ne_of_address hrz hme
        exact .inr ⟨e, mem_endpointsToContact.mpr ⟨r, hr, hne, hrz, he⟩, hae⟩
    · rintro (⟨r, hr, hrz, hempty⟩ | ⟨e, he, hae⟩)
      · exact ⟨r, hr, hrz, .inl hempty⟩
      · obtain ⟨r, hr, _, hrz, he⟩ := mem_endpointsToContact.mp he
        exact ⟨r, hr, hrz, .inr ⟨e, he, hae⟩⟩
  · obtain ⟨r, hr, _, hrz, he⟩ := mem_endpointsToContact.mp he
    exact isProhibitedEndpoint_of_mem hr hrz he

end Topology

end ZGalaxy
