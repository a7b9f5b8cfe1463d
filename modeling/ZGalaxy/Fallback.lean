/-
ZGalaxy/Fallback.lean

When the service falls back to resolving names.

Without validation a request stands for a world that the main loop has found unreachable.  It looks
worlds up by ids, one of them cached when the service started and the others configured, and by
times that the resolver has recorded.  Where these are right, a request has a reason: the planet
that the node holds or a moon that it orbits is cut off, and has not been attempted lately
(`fallback_real`).  The id of a planet stays right once there is one; for this the topology is
followed along the run.
-/
import ZGalaxy.DnsService

namespace ZGalaxy

/-- What an iteration has copied. -/
def MainThread.copyOf : MainThread → Option DnsCopy
  | .copied c => some c
  | _ => none

/-- The id of the planet has been cached. -/
def MainThread.hasSeeded : MainThread → Bool
  | .booting => false
  | _ => true

namespace Service

variable {ecc : Ecc} {s s' : Service}

/-! ### What is configured while an iteration lasts -/

/-- The state is as the main loop has seen it. -/
structure Seen (s : Service) : Prop where
  sound : Topology.Sound s.topology
  /-- the cached id, once there is one -/
  planetId : s.dns.planetId ≠ 0 → s.main.hasSeeded = true → s.topology.planet.id = s.dns.planetId
  domain : ∀ c, s.main.copyOf = some c → c.planetDomain = s.dns.domain
  moons : ∀ c, s.main.copyOf = some c → c.moons.map Prod.fst = s.dns.moons.map ZgMoon.worldId

theorem map_worldId_touchMoon (id : UInt64) (attempt : ℤ) (moons : List ZgMoon) :
    (touchMoon id attempt moons).map ZgMoon.worldId = moons.map ZgMoon.worldId := by
  induction moons with
  | nil => rfl
  | cons m moons ih =>
      unfold touchMoon
      split_ifs
      · rfl
      · rw [List.map_cons, List.map_cons, ih]

/-- Recording changes neither the domain nor the ids. -/
theorem records_keeps {d d' : DnsState} {r r' : Resolver} (h : Records d r r' d') :
    d'.domain = d.domain ∧ d'.planetId = d.planetId ∧
      d'.moons.map ZgMoon.worldId = d.moons.map ZgMoon.worldId := by
  cases h with
  | planet => exact ⟨rfl, rfl, rfl⟩
  | moon attempt id moons => exact ⟨rfl, rfl, map_worldId_touchMoon id attempt d.moons⟩
  | ended => exact ⟨rfl, rfl, rfl⟩

/-- The main thread goes on without a copy. -/
theorem Seen.moves (h : s.Seen) {main : MainThread} (hmain : main.copyOf = none)
    (hid : s.main.hasSeeded = true) {r : Resolver} {run : Bool} {dns : DnsState}
    {requests : Requests} (hdns : dns.planetId = s.dns.planetId) :
    Seen ⟨main, r, run, dns, s.topology, requests⟩ := by
  have hnone : ∀ c, main.copyOf ≠ some c := by
    intro c hc
    cases hmain.symm.trans hc
  refine ⟨h.sound, fun hne _ => ?_, fun c hc => absurd hc (hnone c),
    fun c hc => absurd hc (hnone c)⟩
  show s.topology.planet.id = dns.planetId
  rw [hdns]
  exact h.planetId (hdns ▸ hne) hid

/-- The main thread stays where it is. -/
theorem Seen.stays (h : s.Seen) {r : Resolver} {dns : DnsState} {requests : Requests}
    (hdomain : dns.domain = s.dns.domain) (hid : dns.planetId = s.dns.planetId)
    (hmoons : dns.moons.map ZgMoon.worldId = s.dns.moons.map ZgMoon.worldId) :
    Seen ⟨s.main, r, s.run, dns, s.topology, requests⟩ := by
  refine ⟨h.sound, fun hne hmain => ?_, fun c hc => ?_, fun c hc => ?_⟩
  · show s.topology.planet.id = dns.planetId
    rw [hid]
    exact h.planetId (hid ▸ hne) hmain
  · exact (h.domain c hc).trans hdomain.symm
  · exact (h.moons c hc).trans hmoons.symm

/-- The topology goes on. -/
theorem Seen.node (h : s.Seen) (e : TopologyEvent) :
    Seen { s with topology := ((ZGalaxy.topology ecc).step s.topology e).1 } := by
  have hstep := Topology.step_cases ecc s.topology e
  refine ⟨h.sound.step hstep, fun hne hmain => ?_, h.domain, h.moons⟩
  have hid : s.topology.planet.id = s.dns.planetId := h.planetId hne hmain
  have hplanet := (Topology.planet_step h.sound (hid ▸ hne) hstep).follows
  exact hplanet.id.trans hid

theorem Seen.step {a : ServiceAction} (h : s.Seen) (hstep : s.step ecc a = some s') : s'.Seen := by
  cases step_does hstep with
  | seeds =>
      exact ⟨h.sound, fun _ _ => rfl, fun c hc => absurd hc (Option.some_ne_none c).symm,
        fun c hc => absurd hc (Option.some_ne_none c).symm⟩
  | launches hmain => exact h.moves rfl (hmain ▸ rfl) rfl
  | requests hmain =>
      refine h.moves rfl ?_ rfl
      rcases hmain with hmain | hmain <;> rw [hmain] <;> rfl
  | passes hmain =>
      refine h.moves rfl ?_ rfl
      rcases hmain with hmain | hmain <;> rw [hmain] <;> rfl
  | copies hmain =>
      refine ⟨h.sound, fun hne _ => h.planetId hne (hmain ▸ rfl), fun c hc => ?_, fun c hc => ?_⟩
      · obtain rfl := Option.some.inj hc
        rfl
      · obtain rfl := Option.some.inj hc
        exact List.map_map
  | judges now hasAlivePath c hmain =>
      refine h.moves rfl (hmain ▸ rfl) ?_
      unfold DnsState.validated
      split_ifs <;> rfl
  | quits hmain => exact h.moves rfl (hmain ▸ rfl) rfl
  | clears hmain => exact h.moves rfl (hmain ▸ rfl) rfl
  | parts hmain => exact h.moves rfl (hmain ▸ rfl) rfl
  | joins hmain => exact h.moves rfl (hmain ▸ rfl) rfl
  | configures hmain a d hd =>
      have hcopy : s.main.copyOf = none := by
        rcases hmain with hmain | hmain <;> rw [hmain] <;> rfl
      have hnone : ∀ c, s.main.copyOf ≠ some c := by
        intro c hc
        cases hcopy.symm.trans hc
      have hid : d.planetId = s.dns.planetId := by
        cases hd <;> rfl
      refine ⟨h.sound, fun hne hseeded => ?_, fun c hc => absurd hc (hnone c),
        fun c hc => absurd hc (hnone c)⟩
      exact (h.planetId (hid ▸ hne) hseeded).trans hid.symm
  | node e => exact h.node e
  | looks => exact h.stays rfl rfl rfl
  | waits => exact h.stays rfl rfl rfl
  | wakes => exact h.stays rfl rfl rfl
  | checks => exact h.stays rfl rfl rfl
  | begins => exact h.stays rfl rfl rfl
  | records r d hrecords =>
      obtain ⟨hdomain, hid, hmoons⟩ := records_keeps hrecords
      exact h.stays hdomain hid hmoons

theorem Booting.seen (h : s.Booting) (hreachable : Topology.Reachable ecc s.topology) : s.Seen := by
  refine ⟨hreachable.sound, fun _ hseeded => ?_, fun c hc => ?_, fun c hc => ?_⟩
  · rw [h.main] at hseeded
    cases hseeded
  · rw [h.main] at hc
    cases hc
  · rw [h.main] at hc
    cases hc

/-! ### Reasons -/

/-- No root of the world has a path that is alive. -/
def CutOff (s : Service) (hasAlivePath : Address → Bool) (w : World) : Prop :=
  ∀ r ∈ w.roots, s.topology.rootAlive hasAlivePath r = false

/-- The retry interval is over since an attempt, if there was one. -/
def Rested (attempt : Option ℤ) (now : ℤ) : Prop :=
  ∀ t, attempt = some t → dnsRetryInterval ≤ now - t

/-- The planet that the node holds has a domain, is cut off, and was not attempted lately. -/
structure PlanetDown (s : Service) (now : ℤ) (hasAlivePath : Address → Bool) : Prop where
  configured : s.dns.domain ≠ ""
  held : s.topology.planet.isSet = true
  cutOff : s.CutOff hasAlivePath s.topology.planet
  rested : Rested s.requests.planetAttempt now

/-- A configured moon that the node orbits is cut off, and was not attempted lately. -/
structure MoonDown (s : Service) (now : ℤ) (hasAlivePath : Address → Bool) (m : ZgMoon) : Prop where
  orbited : ∃ w ∈ s.topology.moons, w.id = m.worldId ∧ s.CutOff hasAlivePath w
  rested : Rested (s.requests.moonAttempt m.worldId) now

/-- There is a reason for a pass. -/
def Disconnected (s : Service) (now : ℤ) (hasAlivePath : Address → Bool) : Prop :=
  s.PlanetDown now hasAlivePath ∨ ∃ m ∈ s.dns.moons, s.MoonDown now hasAlivePath m

/-- What the main loop goes by is right: where a turn has come, that of the planet is the turn of a
planet that the node held when the service started, that of a moon the turn of a moon that the node
orbits, and the recorded time is not before the last attempt. -/
structure Accurate (s : Service) (c : DnsCopy) (now : ℤ) : Prop where
  planet : s.dns.domain ≠ "" → dnsRetryInterval ≤ now - c.lastDnsCheck →
    s.dns.planetId ≠ 0 ∧ ∀ t, s.requests.planetAttempt = some t → t ≤ c.lastDnsCheck
  moons : ∀ m ∈ c.moons, dnsRetryInterval ≤ now - m.2 →
    (m.1 ≠ s.topology.planet.id ∧ ∃ w ∈ s.topology.moons, w.id = m.1) ∧
      ∀ t, s.requests.moonAttempt m.1 = some t → t ≤ m.2

/-! ### Requests have reasons -/

variable {now : ℤ} {hasAlivePath : Address → Bool} {c : DnsCopy}

theorem rested_of_recorded {attempt : Option ℤ} {recorded : ℤ}
    (hdue : dnsRetryInterval ≤ now - recorded) (h : ∀ t, attempt = some t → t ≤ recorded) :
    Rested attempt now := by
  intro t ht
  have hle := h t ht
  omega

/-- The world that is looked up, where it is not reachable. -/
theorem cutOff_of_not_reachable {id : UInt64} {w : World} (hw : s.topology.worldOf id = some w)
    (h : s.topology.isWorldReachable id hasAlivePath = false) : s.CutOff hasAlivePath w := by
  unfold Topology.isWorldReachable at h
  rw [hw, Option.any_some, List.any_eq_false] at h
  intro r hr
  exact Bool.eq_false_iff.mpr (h r hr)

theorem planetDown_of_fallback (hseen : s.Seen) (hmain : s.main = .copied c)
    (haccurate : s.Accurate c now) (h : s.planetFallback c now hasAlivePath = true) :
    s.PlanetDown now hasAlivePath := by
  unfold planetFallback at h
  rw [Bool.and_eq_true, Bool.and_eq_true, bne_iff_ne, decide_eq_true_iff, Bool.not_eq_true'] at h
  obtain ⟨⟨hdomain, hdue⟩, hunreachable⟩ := h
  rw [hseen.domain c (hmain ▸ rfl)] at hdomain
  obtain ⟨hid, hrecorded⟩ := haccurate.planet hdomain hdue
  have hplanet : s.topology.planet.id = s.dns.planetId := hseen.planetId hid (hmain ▸ rfl)
  refine ⟨hdomain, ?_, ?_, rested_of_recorded hdue hrecorded⟩
  · rw [World.isSet, bne_iff_ne]
    intro hnull
    exact hid (hplanet ▸ hseen.sound.planet hnull)
  · exact cutOff_of_not_reachable (if_pos hplanet) hunreachable

theorem moonDown_of_fallback (hseen : s.Seen) (hmain : s.main = .copied c)
    (haccurate : s.Accurate c now) {m : UInt64 × ℤ} (hm : m ∈ c.moons)
    (h : s.moonFallback now hasAlivePath m = true) :
    ∃ m ∈ s.dns.moons, s.MoonDown now hasAlivePath m := by
  unfold moonFallback at h
  rw [Bool.and_eq_true, decide_eq_true_iff, Bool.not_eq_true'] at h
  obtain ⟨hdue, hunreachable⟩ := h
  obtain ⟨⟨hplanet, w, hw, hwid⟩, hrecorded⟩ := haccurate.moons m hm hdue
  -- the moon is one of those that are configured
  have hid : m.1 ∈ s.dns.moons.map ZgMoon.worldId := by
    rw [← hseen.moons c (hmain ▸ rfl)]
    exact List.mem_map_of_mem hm
  obtain ⟨zm, hzm, hzmid⟩ := List.mem_map.mp hid
  refine ⟨zm, hzm, ?_, ?_⟩
  · obtain ⟨w', hw'⟩ : ∃ w', s.topology.moons.find? (fun m' => m'.id == m.1) = some w' := by
      refine Option.isSome_iff_exists.mp (List.find?_isSome.mpr ⟨w, hw, ?_⟩)
      exact beq_iff_eq.mpr hwid
    have hworld : s.topology.worldOf m.1 = some w' := by
      rw [Topology.worldOf, if_neg (Ne.symm hplanet)]
      exact hw'
    refine ⟨w', List.mem_of_find?_eq_some hw', ?_, cutOff_of_not_reachable hworld hunreachable⟩
    exact (Topology.id_of_find? hw').trans hzmid.symm
  · rw [hzmid]
    exact rested_of_recorded hdue hrecorded

/-- **A request of an iteration has a reason.**  Over every run from the start of the service and
every iteration with validation disabled: where what the main loop goes by is right, it wants a pass
only for a planet or a moon that is cut off. -/
theorem fallback_real {s₀ : Service} {as : List ServiceAction} (hboot : s₀.Booting)
    (hreachable : Topology.Reachable ecc s₀.topology)
    (hrun : execute (step ecc) s₀ as = some s) (hmain : s.main = .copied c)
    (hjudge : s.step ecc (.judge now hasAlivePath) = some s')
    (hdisabled : s.dns.validateInterval ≤ 0) (haccurate : s.Accurate c now)
    (hwants : s'.main = .judged true) : s.Disconnected now hasAlivePath := by
  have hseen : s.Seen :=
    execute_invariant (fun _ _ _ => Seen.step) (hboot.seen hreachable) hrun
  have hwant : s.wantResolve c now hasAlivePath = true := by
    cases step_does hjudge with
    | configures _ _ _ hd => cases hd
    | judges _ _ c' hmain' =>
        obtain rfl := MainThread.copied.inj (hmain.symm.trans hmain')
        exact MainThread.judged.inj hwants
  have hvalidation : s.dns.validationDue now = false := by
    rw [DnsState.validationDue, decide_eq_false (not_lt.mpr hdisabled), Bool.false_and]
  unfold wantResolve at hwant
  rw [hvalidation, Bool.false_or, Bool.and_eq_true, Bool.or_eq_true, List.any_eq_true] at hwant
  rcases hwant.2 with hplanet | ⟨m, hm, hmoon⟩
  · exact Or.inl (planetDown_of_fallback hseen hmain haccurate hplanet)
  · exact Or.inr (moonDown_of_fallback hseen hmain haccurate hm hmoon)

/-! ### A planet that comes later -/

/-- A planet with one root. -/
def rooted : World :=
  ⟨1, 5, .planet, List.replicate 64 0, List.replicate 96 0, [⟨⟨0x0a0b0c0d0e, []⟩, []⟩]⟩

/-- A service with a domain for its planet, before its start. -/
def atStart (t : Topology) : Service where
  main := .booting
  resolver := .unborn
  run := false
  dns := ⟨"planet.example", [], 0, 0, 0, 0⟩
  topology := t
  requests := ⟨false, none, fun _ => none⟩

/-- The service in its first iteration, with the id that it has cached. -/
def firstIteration (t : Topology) (planetId : UInt64) : Service where
  main := .copied ⟨"planet.example", 0, []⟩
  resolver := .atTop
  run := true
  dns := ⟨"planet.example", [], 0, 0, planetId, 0⟩
  topology := t
  requests := ⟨true, none, fun _ => none⟩

/-- A planet that was there at the start, and is cut off. -/
theorem fallback_real_orbited :
    (firstIteration (Topology.orbited true) (Topology.orbited true).planet.id).Disconnected 5000
      fun _ => true := by
  have hrun : execute (step (Topology.eccOf true)) (atStart (Topology.orbited true))
      [.seed, .launch, .request, .copy]
      = some (firstIteration (Topology.orbited true) (Topology.orbited true).planet.id) := rfl
  have hid : (Topology.orbited true).planet.id ≠ 0 := by decide +kernel
  have hwant : (firstIteration (Topology.orbited true)
      (Topology.orbited true).planet.id).wantResolve ⟨"planet.example", 0, []⟩ 5000
        (fun _ => true) = true := by
    decide +kernel
  refine fallback_real ⟨rfl, rfl, rfl⟩ (Topology.reachable_orbited true) hrun rfl rfl le_rfl
    ⟨fun _ _ => ⟨hid, fun t ht => ?_⟩, fun m hm => absurd hm List.not_mem_nil⟩
    (congrArg MainThread.judged hwant)
  cases ht

/-- A node without a planet. -/
def withoutPlanet : Topology := Topology.new (Topology.eccOf true) ⟨0x0102030405, []⟩ []

/-- It learns of a planet. -/
def learned : Topology :=
  ((ZGalaxy.topology (Topology.eccOf true)).step withoutPlanet (.addWorld rooted false)).1

/-- **A planet that the node learns later** is taken for unreachable while it is reached. -/
theorem fallback_unreal : ¬ ∀ (ecc : Ecc) (s₀ s s' : Service) (as : List ServiceAction)
    (c : DnsCopy) (now : ℤ) (hasAlivePath : Address → Bool), s₀.Booting →
    Topology.Reachable ecc s₀.topology → execute (step ecc) s₀ as = some s → s.main = .copied c →
    s.step ecc (.judge now hasAlivePath) = some s' → s.dns.validateInterval ≤ 0 →
    s'.main = .judged true → s.Disconnected now hasAlivePath := by
  intro h
  have hreachable : Topology.Reachable (Topology.eccOf true) withoutPlanet :=
    ⟨⟨0x0102030405, []⟩, [], [], rfl⟩
  have hrun : execute (step (Topology.eccOf true)) (atStart withoutPlanet)
      [.seed, .launch, .request, .node (.addWorld rooted false), .copy]
      = some (firstIteration learned withoutPlanet.planet.id) := rfl
  have hwant : (firstIteration learned withoutPlanet.planet.id).wantResolve
      ⟨"planet.example", 0, []⟩ 5000 (fun _ => true) = true := by
    decide +kernel
  -- the root of the planet has a path
  have halive : ∃ r ∈ learned.planet.roots, learned.rootAlive (fun _ => true) r = true := by
    decide +kernel
  rcases h _ _ _ _ _ _ 5000 (fun _ => true) ⟨rfl, rfl, rfl⟩ hreachable hrun rfl rfl le_rfl
    (congrArg MainThread.judged hwant) with hplanet | ⟨m, hm, -⟩
  · obtain ⟨r, hr, halive⟩ := halive
    exact absurd (hplanet.cutOff r hr) (Bool.not_eq_false _ ▸ halive)
  · exact absurd hm List.not_mem_nil

end Service

end ZGalaxy
