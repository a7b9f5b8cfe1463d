/-
ZGalaxy/ConfReload.lean

Reading `local.conf` again, against a start that reads it once.

A reading replaces the domain and the moons, but it appends the addresses to bind to those of the
readings before, it sets networks in the table of the node and takes none out, and a file that is
missing or empty leaves the document of the last time in force.  The moons are built anew, so what
the resolver found out about them is gone.

Main result: `reload_iff`, that after the last reading of a run everything is as after a fresh
start, and nothing about a moon is lost, just when the state before and the document meet
`Reloadable`.
-/
import ZGalaxy.LocalConf

namespace ZGalaxy.LocalConf

variable {pton : InetPton}

/-! ### The service -/

/-- A service with a node. -/
structure Running where
  settings : Settings
  node : PhysicalPaths

/-- A service that has read nothing. -/
def Running.fresh (controllerDbPath : String) : Running :=
  ⟨Settings.initial controllerDbPath, .empty⟩

/-- `OneServiceImpl::readLocalSettings`, with a node. -/
def Running.read (pton : InetPton) (R : Reading) (p : Running) : Except Stop Running := do
  let read ← readLocalSettings pton R p.settings (some p.node)
  pure ⟨read.1, read.2.getD p.node⟩

/-- What `_zgalaxyDnsLoop` writes when the domain of a moon was resolved, or could not be. -/
def recordMoon (worldId : UInt64) (attempt : ℤ) (ips : List InetAddress) :
    List ZgMoon → List ZgMoon
  | [] => []
  | mm :: moons =>
      if mm.worldId = worldId then
        { mm with
          lastResolved := attempt
          resolvedIps := if ips.isEmpty then mm.resolvedIps else ips } :: moons
      else mm :: recordMoon worldId attempt ips moons

/-- What happens to the settings. -/
inductive ConfEvent
  | readLocalSettings (R : Reading)
  | resolved (worldId : UInt64) (attempt : ℤ) (ips : List InetAddress)

/-- One event. -/
def Running.apply (pton : InetPton) (p : Running) : ConfEvent → Except Stop Running
  | .readLocalSettings R => p.read pton R
  | .resolved worldId attempt ips =>
      .ok { p with settings :=
        { p.settings with moons := recordMoon worldId attempt ips p.settings.moons } }

/-- The service over its life, which a reading may end. -/
def service (pton : InetPton) : Machine (Except Stop Running) ConfEvent Empty where
  step x e := (x.bind fun p => p.apply pton e, [])

/-! ### What a reload is to be -/

/-- The settings of two services are the same. -/
structure SameSettings (p q : Running) : Prop where
  explicitBind : p.settings.explicitBind = q.settings.explicitBind
  networks : ∀ e, e ∈ p.node.entries ↔ e ∈ q.node.entries
  domain : p.settings.domain = q.settings.domain
  moons : ∀ m, m ∈ p.settings.moons.map ZgMoon.configured ↔
    m ∈ q.settings.moons.map ZgMoon.configured

/-- A moon that is configured before and after is there with all that was known of it. -/
def KeepsMoons (p p' : Running) : Prop :=
  ∀ mm ∈ p.settings.moons, mm.configured ∈ p'.settings.moons.map ZgMoon.configured →
    mm ∈ p'.settings.moons

/-- **A reading is as good as a fresh start** that reads only this, and keeps what is known of the
moons. -/
def ReloadsAsFresh (pton : InetPton) (controllerDbPath : String) (R : Reading) (p : Running) :
    Prop :=
  ∀ p', p.read pton R = .ok p' →
    (∃ q, (Running.fresh controllerDbPath).read pton R = .ok q ∧ SameSettings p' q) ∧
      KeepsMoons p p'

/-! ### When it is -/

/-- The document that a file is to a service that keeps none. -/
def ConfFile.alone : ConfFile → Json
  | document root => root
  | _ => .null

/-- A document that is kept says no more than none. -/
structure SaysNothing (pton : InetPton) (R : Reading) (lc : Json) : Prop where
  unbound : bindsOf pton (lc.get "settings") = []
  domain : domainOf lc R.envDomain = domainOf .null R.envDomain
  moons : ∀ m ∈ (lc.get "zgalaxyMoons").elements, moonOf m = none
  networks : ∀ e ∈ PhysicalPaths.clamped ((R.networks lc).paths pton),
    e ∈ PhysicalPaths.clamped ((R.networks .null).paths pton) ∨
      maxConfigurablePaths ≤
        SortedMap.before InetAddress.lt ((R.networks .null).paths pton) e.1

/-- **When a document can be read again**: no address to bind to was read before, the networks of
the node are configured again or pushed out, of a moon that is named again nothing is known but the
time that happens to stand in the new one, and a document that is kept, for there is no other, says
nothing. -/
structure Reloadable (pton : InetPton) (R : Reading) (p : Running) (lc : Json) : Prop where
  unbound : p.settings.explicitBind = []
  networks : ∀ e ∈ p.node.entries, (R.networks lc).Configures pton e.1 ∨
    maxConfigurablePaths ≤
      SortedMap.before InetAddress.lt ((R.networks R.file.alone).paths pton) e.1
  moons : ∀ mm ∈ p.settings.moons,
    (∃ m ∈ (lc.get "zgalaxyMoons").elements, moonOf m = some mm.configured) →
    mm.resolvedIps = [] ∧ ∃ i m, (lc.get "zgalaxyMoons").elements[i]? = some m ∧
      moonOf m = some mm.configured ∧ mm.lastResolved = R.uninitialised i
  kept : R.file = .empty → SaysNothing pton R lc

variable {R : Reading} {p : Running} {lc kept : Json} {controllerDbPath : String}

theorem parse_document (kept root : Json) : (ConfFile.document root).parse kept =
    if root.isObject then .ok root else .error .exit := rfl

/-- The document that is read is the file's own, or the one that was kept. -/
theorem parse_cases {file : ConfFile} (h : file.parse kept = .ok lc) :
    (file = .empty ∧ lc = kept) ∨ (file ≠ .empty ∧ file.alone = lc) := by
  cases file with
  | empty => exact Or.inl ⟨rfl, (Except.ok.inj h).symm⟩
  | invalid => cases h
  | document root =>
      rw [parse_document] at h
      split_ifs at h with hobject
      refine Or.inr ⟨fun heq => ?_, Except.ok.inj h⟩
      cases heq

theorem parse_alone {file : ConfFile} (h : file.parse kept = .ok lc) :
    file.parse .null = .ok file.alone := by
  cases file with
  | empty => rfl
  | invalid => cases h
  | document root =>
      rw [parse_document] at h ⊢
      split_ifs at h with hobject
      exact if_pos hobject

theorem keyed_alone {file : ConfFile} (h : file.parse kept = .ok lc)
    (hkeyed : Keyed (lc.get "zgalaxyMoons").elements) :
    Keyed (file.alone.get "zgalaxyMoons").elements := by
  rcases parse_cases h with ⟨rfl, -⟩ | ⟨-, heq⟩
  · exact List.forall_mem_nil _
  · rwa [heq]

/-- A reading that goes through. -/
theorem Running.read_eq (hlc : R.file.parse p.settings.localConfig = .ok lc)
    (hkeyed : Keyed (lc.get "zgalaxyMoons").elements) :
    p.read pton R = .ok ⟨p.settings.read pton lc R.envDomain
      (moonsOf R.uninitialised (lc.get "zgalaxyMoons").elements),
      ZGalaxy.readLocalSettings pton p.node (R.networks lc)⟩ := by
  unfold Running.read
  rw [readLocalSettings_eq hlc hkeyed]
  rfl

theorem Running.read_ok {p' : Running} (h : p.read pton R = .ok p') :
    ∃ lc, R.file.parse p.settings.localConfig = .ok lc ∧
      Keyed (lc.get "zgalaxyMoons").elements ∧
      p' = ⟨p.settings.read pton lc R.envDomain
        (moonsOf R.uninitialised (lc.get "zgalaxyMoons").elements),
        ZGalaxy.readLocalSettings pton p.node (R.networks lc)⟩ := by
  rcases hread : readLocalSettings pton R p.settings (some p.node) with stop | x
  · unfold Running.read at h
    rw [hread] at h
    cases h
  · obtain ⟨lc, hlc, hkeyed, -, -⟩ := readLocalSettings_ok hread
    rw [Running.read_eq hlc hkeyed] at h
    exact ⟨lc, hlc, hkeyed, (Except.ok.inj h).symm⟩

/-! ### Setting by setting -/

variable (hlc : R.file.parse kept = .ok lc)
include hlc

theorem same_binds_iff {explicitBind : List InetAddress} :
    explicitBind ++ bindsOf pton (lc.get "settings") =
        bindsOf pton (R.file.alone.get "settings") ↔
      explicitBind = [] ∧ (R.file = .empty → bindsOf pton (lc.get "settings") = []) := by
  rcases parse_cases hlc with ⟨hempty, -⟩ | ⟨hfile, heq⟩
  · rw [hempty]
    refine List.append_eq_nil_iff.trans (and_congr_right fun _ => ?_)
    exact ⟨fun h _ => h, fun h => h rfl⟩
  · rw [heq, List.append_left_eq_self]
    exact (and_iff_left fun hempty => absurd hempty hfile).symm

theorem same_domain_iff :
    domainOf lc R.envDomain = domainOf R.file.alone R.envDomain ↔
      (R.file = .empty → domainOf lc R.envDomain = domainOf .null R.envDomain) := by
  rcases parse_cases hlc with ⟨hempty, -⟩ | ⟨hfile, heq⟩
  · rw [hempty]
    exact ⟨fun h _ => h, fun h => h rfl⟩
  · rw [heq]
    exact iff_of_true rfl fun hempty => absurd hempty hfile

theorem same_moons_iff :
    (∀ m, m ∈ (lc.get "zgalaxyMoons").elements.filterMap moonOf ↔
        m ∈ (R.file.alone.get "zgalaxyMoons").elements.filterMap moonOf) ↔
      (R.file = .empty → ∀ m ∈ (lc.get "zgalaxyMoons").elements, moonOf m = none) := by
  rcases parse_cases hlc with ⟨hempty, -⟩ | ⟨hfile, heq⟩
  · rw [hempty]
    refine Iff.trans ?_ ⟨fun h _ => h, fun h => h rfl⟩
    rw [← List.filterMap_eq_nil_iff, List.eq_nil_iff_forall_not_mem]
    exact forall_congr' fun m => iff_false_right List.not_mem_nil
  · rw [heq]
    exact iff_of_true (fun _ => Iff.rfl) fun hempty => absurd hempty hfile

theorem same_networks_iff (hp : p.node.Ordered) :
    (∀ e, e ∈ (ZGalaxy.readLocalSettings pton p.node (R.networks lc)).entries ↔
        e ∈ (ZGalaxy.readLocalSettings pton .empty (R.networks R.file.alone)).entries) ↔
      (∀ e ∈ p.node.entries, (R.networks lc).Configures pton e.1 ∨ maxConfigurablePaths ≤
        SortedMap.before InetAddress.lt ((R.networks R.file.alone).paths pton) e.1) ∧
      (R.file = .empty → ∀ e ∈ PhysicalPaths.clamped ((R.networks lc).paths pton),
        e ∈ PhysicalPaths.clamped ((R.networks .null).paths pton) ∨ maxConfigurablePaths ≤
          SortedMap.before InetAddress.lt ((R.networks .null).paths pton) e.1) := by
  rcases parse_cases hlc with ⟨hempty, -⟩ | ⟨hfile, heq⟩
  · rw [hempty]
    -- without a document there are the networks of `trustedpaths`, which the kept one has as well
    have hnull : ∀ net, (R.networks .null).Configures pton net →
        (R.networks lc).Configures pton net := by
      rintro net (hline | ⟨phy, hphy, -⟩)
      · exact Or.inl hline
      · cases hphy
    refine (PhysicalPaths.same_table_iff hp hnull).trans (and_congr_right fun _ => ?_)
    exact ⟨fun h _ => h, fun h => h rfl⟩
  · rw [heq]
    refine (PhysicalPaths.same_table_iff hp fun _ h => h).trans (and_congr_right fun _ => ?_)
    exact iff_of_true (fun _ he => Or.inl he) fun hempty => absurd hempty hfile

omit hlc

theorem keeps_moons_iff (mj : List Json) (moons : List ZgMoon) (uninitialised : ℕ → ℤ) :
    (∀ mm ∈ moons, mm.configured ∈ (moonsOf uninitialised mj).map ZgMoon.configured →
        mm ∈ moonsOf uninitialised mj) ↔
      ∀ mm ∈ moons, (∃ m ∈ mj, moonOf m = some mm.configured) →
        mm.resolvedIps = [] ∧ ∃ i m, mj[i]? = some m ∧ moonOf m = some mm.configured ∧
          mm.lastResolved = uninitialised i := by
  refine forall₂_congr fun mm _ => ?_
  rw [map_configured_moonsOf, List.mem_filterMap, mem_moonsOf]
  refine imp_congr_right fun _ => ?_
  constructor
  · rintro ⟨i, m, hm, hnamed, hips, htime⟩
    exact ⟨hips, i, m, hm, hnamed, htime⟩
  · rintro ⟨hips, i, m, hm, hnamed, htime⟩
    exact ⟨i, m, hm, hnamed, hips, htime⟩

/-- **A reading that goes through**, in a service whose table is in order. -/
theorem reloads_iff_of_read (hp : p.node.Ordered)
    (hlc : R.file.parse p.settings.localConfig = .ok lc)
    (hkeyed : Keyed (lc.get "zgalaxyMoons").elements) :
    ReloadsAsFresh pton controllerDbPath R p ↔ Reloadable pton R p lc := by
  have hread : p.read pton R = _ := Running.read_eq hlc hkeyed
  have hfresh : (Running.fresh controllerDbPath).read pton R = _ :=
    Running.read_eq (parse_alone hlc) (keyed_alone hlc hkeyed)
  have hkeeps := keeps_moons_iff (lc.get "zgalaxyMoons").elements p.settings.moons R.uninitialised
  have hmoons := same_moons_iff hlc
  rw [← map_configured_moonsOf R.uninitialised, ← map_configured_moonsOf R.uninitialised] at hmoons
  constructor
  · intro h
    obtain ⟨⟨q, hq, hsame⟩, hmm⟩ := h _ hread
    rw [hfresh] at hq
    obtain rfl := Except.ok.inj hq
    obtain ⟨hbind, hbinds⟩ := (same_binds_iff hlc).mp hsame.explicitBind
    obtain ⟨hnetworks, hnothing⟩ := (same_networks_iff hlc hp).mp hsame.networks
    refine ⟨hbind, hnetworks, hkeeps.mp hmm, fun hempty => ⟨hbinds hempty, ?_, ?_, ?_⟩⟩
    · exact (same_domain_iff hlc).mp hsame.domain hempty
    · exact hmoons.mp hsame.moons hempty
    · exact hnothing hempty
  · intro h p' hp'
    rw [hread] at hp'
    obtain rfl := Except.ok.inj hp'
    refine ⟨⟨_, hfresh, ?_, ?_, ?_, ?_⟩, hkeeps.mpr h.moons⟩
    · exact (same_binds_iff hlc).mpr ⟨h.unbound, fun hempty => (h.kept hempty).unbound⟩
    · exact (same_networks_iff hlc hp).mpr ⟨h.networks, fun hempty => (h.kept hempty).networks⟩
    · exact (same_domain_iff hlc).mpr fun hempty => (h.kept hempty).domain
    · exact hmoons.mpr fun hempty => (h.kept hempty).moons

/-- **A reading in any service** whose table is in order: it ends the process, or the document can
be read again. -/
theorem reloads_iff (hp : p.node.Ordered) :
    ReloadsAsFresh pton controllerDbPath R p ↔
      ∀ lc, R.file.parse p.settings.localConfig = .ok lc →
        Keyed (lc.get "zgalaxyMoons").elements → Reloadable pton R p lc := by
  constructor
  · intro h lc hlc hkeyed
    exact (reloads_iff_of_read hp hlc hkeyed).mp h
  · intro h p' hp'
    obtain ⟨lc, hlc, hkeyed, -⟩ := Running.read_ok hp'
    exact (reloads_iff_of_read hp hlc hkeyed).mpr (h lc hlc hkeyed) p' hp'

/-! ### Over the life of a service -/

/-- **A step of the service** leaves the networks in order. -/
theorem ordered_apply {e : ConfEvent} {p' : Running} (hp : p.node.Ordered)
    (h : p.apply pton e = .ok p') : p'.node.Ordered := by
  cases e with
  | readLocalSettings R =>
      obtain ⟨lc, -, -, rfl⟩ := Running.read_ok h
      exact hp.readLocalSettings _
  | resolved worldId attempt ips =>
      obtain rfl := Except.ok.inj h
      exact hp

/-- In every service that goes on the networks are in order. -/
theorem ordered_run (pton : InetPton) (controllerDbPath : String) (es : List ConfEvent) :
    ∀ p, (service pton).runState (.ok (.fresh controllerDbPath)) es = .ok p → p.node.Ordered := by
  refine Machine.invariant_run
    (I := fun _ (x : Except Stop Running) => ∀ p, x = .ok p → p.node.Ordered)
    (C := fun _ _ => True) (h := []) ?_ ?_ (Machine.guarded_true _ _ es)
  · rintro - (stop | p) e hp - p' h
    · cases h
    · exact ordered_apply (hp p rfl) h
  · intro p hp
    obtain rfl := Except.ok.inj hp
    exact PhysicalPaths.ordered_empty

/-- A reading of a document with one address to bind to. -/
def oneBind : Reading :=
  ⟨[], .document (.object [("settings", .object [("bind", .array [.string "10.0.0.1"])])]), "",
    fun _ => 0⟩

/-- An address to bind to is there twice when the same file is read twice. -/
theorem bound_twice :
    ¬∀ (pton : InetPton) (controllerDbPath : String) (es : List ConfEvent) (R : Reading)
      (p : Running), (service pton).runState (.ok (.fresh controllerDbPath)) es = .ok p →
      ReloadsAsFresh pton controllerDbPath R p := by
  intro h
  have hread : ∀ p : Running, p.read dotted.toInetPton oneBind = _ := fun p =>
    Running.read_eq rfl (List.forall_mem_nil _)
  have hrun : (service dotted.toInetPton).runState (.ok (.fresh "controller.d"))
      [.readLocalSettings oneBind] = _ := hread (.fresh "controller.d")
  obtain ⟨⟨q, hq, hsame⟩, -⟩ := h _ _ _ oneBind _ hrun _ (hread _)
  rw [hread] at hq
  obtain rfl := Except.ok.inj hq
  have hlength := congrArg List.length hsame.explicitBind
  revert hlength
  decide

/-- **The last reading of a run** leaves everything as after a fresh start, with nothing lost of the
moons, just when it ends the process or its document can be read again. -/
theorem reload_iff (pton : InetPton) (controllerDbPath : String) (es : List ConfEvent)
    (R : Reading) :
    (∀ p, (service pton).runState (.ok (.fresh controllerDbPath)) es = .ok p →
        ReloadsAsFresh pton controllerDbPath R p) ↔
      ∀ p, (service pton).runState (.ok (.fresh controllerDbPath)) es = .ok p →
        ∀ lc, R.file.parse p.settings.localConfig = .ok lc →
          Keyed (lc.get "zgalaxyMoons").elements → Reloadable pton R p lc :=
  forall₂_congr fun p hp => reloads_iff (ordered_run pton controllerDbPath es p hp)

end ZGalaxy.LocalConf
