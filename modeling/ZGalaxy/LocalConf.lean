/-
ZGalaxy/LocalConf.lean

Reading the files `local.conf` and `trustedpaths`.

`readLocalSettings` is called by `run` before there is a node, once more when there is one, and
again whenever the file `local.conf` was written lately.  A reading can end the process in three
ways (`Stop`): the file holds no JSON object, an entry of `zgalaxyMoons` is asked for a member that
it has not, through a constant, or something is to be told to a node that does not exist yet.  A
moon that is read has a time of its last resolution that nothing was written to; `uninitialised`
says what it happens to be.

Main result: `start_safe_iff`, that the two readings of a start go through, whatever the malformed
entries, just when every object in `zgalaxyMoons` has an id and a domain and no network is
configured.

Left out are the cadence of validation, a floating point number, and what is printed.
-/
import Mathlib.Data.List.DropRight
import ZGalaxy.InetText
import ZGalaxy.JsonRecords
import ZGalaxy.PathTable

namespace ZGalaxy.LocalConf

variable {pton : InetPton}

/-! ### The settings -/

/-- How a reading ends the process. -/
inductive Stop
  /-- `exit(1)` -/
  | exit
  /-- `operator[]` of a constant object without the key -/
  | missingKey
  /-- a call through the null pointer `_node` -/
  | noNode
deriving DecidableEq

/-- What is found under the name `local.conf`: nothing, a JSON document, or what is none. -/
inductive ConfFile
  | empty
  | invalid
  | document (root : Json)

/-- `OneServiceImpl::ZgMoon`. -/
structure ZgMoon where
  worldId : UInt64
  domain : String
  resolvedIps : List InetAddress
  lastResolved : ℤ
deriving DecidableEq

/-- What `readLocalSettings` writes, but for what it tells the node. -/
structure Settings where
  /-- `_localConfig` -/
  localConfig : Json
  /-- `_zgalaxyDomain` -/
  domain : String
  /-- `_zgalaxyMoons` -/
  moons : List ZgMoon
  /-- `_zgalaxyEngineUrl` -/
  engineUrl : String
  /-- `_controllerDbPath` -/
  controllerDbPath : String
  /-- `_ssoRedirectURL` -/
  ssoRedirectURL : String
  explicitBind : List InetAddress

/-- The settings of a service that has read nothing. -/
def Settings.initial (controllerDbPath : String) : Settings :=
  ⟨.null, "", [], "", controllerDbPath, "", []⟩

/-- What a reading finds. -/
structure Reading where
  /-- the lines of `trustedpaths`, each cut at blanks and `=` -/
  trustedPaths : List (List String)
  file : ConfFile
  /-- the variable `ZGALAXY_DOMAIN` of the environment, empty when there is none -/
  envDomain : String
  /-- what stands in the fields of new moons that nothing is written to -/
  uninitialised : ℕ → ℤ

/-! ### Reading a document -/

/-- `_localConfig` after the file was read. -/
def ConfFile.parse (localConfig : Json) : ConfFile → Except Stop Json
  | empty => .ok localConfig
  | invalid => .error .exit
  | document root => if root.isObject then .ok root else .error .exit

/-- A blank as the domain is trimmed. -/
def isBlank (c : Char) : Bool := c == ' ' || c == '\t'

/-- The domain of the planet. -/
def domainOf (lc : Json) (envDomain : String) : String :=
  let d := jsonString (lc.get "zgalaxyDomain") ""
  let d := if envDomain.isEmpty then d else envDomain
  String.ofList ((d.toList.dropWhile isBlank).rdropWhile isBlank)

/-- The base URL of the engine. -/
def engineUrlOf (lc : Json) : String :=
  let url := jsonString (lc.get "zgalaxyEngineUrl") ""
  String.ofList (url.toList.rdropWhile fun c => c == '/' || c == ' ')

/-- `operator[]` of a constant object. -/
def constAt (m : Json) (key : String) : Except Stop Json :=
  if m.contains key then .ok (m.get key) else .error .missingKey

/-- The pattern that an id of a moon is matched with: 16 hexadecimal digits. -/
def isWorldId (idStr : String) : Bool :=
  idStr.length == 16 && idStr.toList.all fun c => decide (CString.digit c < 16)

/-- One turn of the loop over `zgalaxyMoons`. -/
def readMoon (uninitialised : ℤ) (m : Json) : Except Stop (List ZgMoon) :=
  if !m.isObject then pure []
  else do
    -- both members are looked up before the test that would leave the entry out
    let id ← constAt m "id"
    let domain ← constAt m "domain"
    let idStr := jsonString id ""
    let dom := jsonString domain ""
    if idStr.isEmpty || dom.isEmpty || !isWorldId idStr then pure []
    else pure [⟨CString.strtoull 16 idStr, dom, [], uninitialised⟩]

/-- The loop over `zgalaxyMoons`. -/
def readMoons (uninitialised : ℕ → ℤ) : List Json → Except Stop (List ZgMoon)
  | [] => pure []
  | m :: mj => do
      let moon ← readMoon (uninitialised 0) m
      let moons ← readMoons (fun i => uninitialised (i + 1)) mj
      pure (moon ++ moons)

/-- The addresses under `bind`. -/
def bindsOf (pton : InetPton) (settings : Json) : List InetAddress :=
  (settings.get "bind").elements.filterMap fun bind =>
    let ips := jsonString bind ""
    if ips.isEmpty then none
    else
      let ip := InetAddress.ofText pton ips
      if ip.isSet then some ip else none

/-- The settings after a document was read. -/
def Settings.read (pton : InetPton) (s : Settings) (lc : Json) (envDomain : String)
    (moons : List ZgMoon) : Settings :=
  let settings := lc.get "settings"
  let cdbp := jsonString (settings.get "controllerDbPath") ""
  { localConfig := lc
    domain := domainOf lc envDomain
    moons := moons
    engineUrl := engineUrlOf lc
    -- a path that is not given is kept from the last time
    controllerDbPath := if settings.isObject && !cdbp.isEmpty then cdbp else s.controllerDbPath
    ssoRedirectURL :=
      if settings.isObject then jsonString (settings.get "ssoRedirectURL") "" else s.ssoRedirectURL
    -- nothing clears what was bound before
    explicitBind := s.explicitBind ++ bindsOf pton settings }

/-- What is said of networks. -/
def Reading.networks (R : Reading) (lc : Json) : LocalSettings :=
  ⟨R.trustedPaths, lc.get "physical"⟩

/-- What is told to the node, if there is something to be told. -/
def applyPaths (pton : InetPton) (conf : LocalSettings) :
    Option PhysicalPaths → Except Stop (Option PhysicalPaths)
  | none => if (conf.paths pton).isEmpty then .ok none else .error .noNode
  | some node => .ok (some (ZGalaxy.readLocalSettings pton node conf))

/-- `OneServiceImpl::readLocalSettings`. -/
def readLocalSettings (pton : InetPton) (R : Reading) (s : Settings)
    (node : Option PhysicalPaths) : Except Stop (Settings × Option PhysicalPaths) := do
  -- a reading that goes on has a document, its own or the one that was kept
  let lc ← R.file.parse s.localConfig
  let moons ← readMoons R.uninitialised (lc.get "zgalaxyMoons").elements
  -- the node is only asked for when something is configured
  let node' ← applyPaths pton (R.networks lc) node
  pure (s.read pton lc R.envDomain moons, node')

/-! ### Moons -/

/-- An entry of `zgalaxyMoons` that names a moon. -/
def moonOf (m : Json) : Option (UInt64 × String) :=
  let idStr := jsonString (m.get "id") ""
  let dom := jsonString (m.get "domain") ""
  if m.isObject && !dom.isEmpty && isWorldId idStr then some (CString.strtoull 16 idStr, dom)
  else none

/-- Every object among the entries has both members. -/
def Keyed (mj : List Json) : Prop :=
  ∀ m ∈ mj, m.isObject = true → m.contains "id" = true ∧ m.contains "domain" = true

/-- The moons that entries name. -/
def moonsOf (uninitialised : ℕ → ℤ) : List Json → List ZgMoon
  | [] => []
  | m :: mj =>
      ((moonOf m).map fun p => ⟨p.1, p.2, [], uninitialised 0⟩).toList ++
        moonsOf (fun i => uninitialised (i + 1)) mj

/-- What a moon is configured with. -/
def ZgMoon.configured (mm : ZgMoon) : UInt64 × String := (mm.worldId, mm.domain)

theorem map_configured_moonsOf (uninitialised : ℕ → ℤ) (mj : List Json) :
    (moonsOf uninitialised mj).map ZgMoon.configured = mj.filterMap moonOf := by
  induction mj generalizing uninitialised with
  | nil => rfl
  | cons m mj ih =>
      rw [moonsOf, List.map_append, ih, List.filterMap_cons]
      rcases moonOf m with - | p
      · rfl
      · rfl

/-- A moon that is read is named by an entry, and nothing is known of it yet. -/
theorem mem_moonsOf {uninitialised : ℕ → ℤ} {mj : List Json} {mm : ZgMoon} :
    mm ∈ moonsOf uninitialised mj ↔ ∃ i m, mj[i]? = some m ∧ moonOf m = some mm.configured ∧
      mm.resolvedIps = [] ∧ mm.lastResolved = uninitialised i := by
  induction mj generalizing uninitialised with
  | nil =>
      refine iff_of_false List.not_mem_nil ?_
      rintro ⟨i, m, hm, -⟩
      cases hm
  | cons m mj ih =>
      rw [moonsOf, List.mem_append, ih, Option.mem_toList, Option.map_eq_some_iff]
      constructor
      · rintro (⟨p, hp, rfl⟩ | ⟨i, m', hm', h⟩)
        · exact ⟨0, m, rfl, hp, rfl, rfl⟩
        · exact ⟨i + 1, m', hm', h⟩
      · rintro ⟨i, m', hm', hnamed, hips, htime⟩
        rcases i with - | i
        · obtain rfl := Option.some.inj hm'
          refine Or.inl ⟨mm.configured, hnamed, ?_⟩
          rw [← hips, ← htime]
          rfl
        · exact Or.inr ⟨i, m', hm', hnamed, hips, htime⟩

theorem isWorldId_nonempty {idStr : String} (h : isWorldId idStr = true) :
    idStr.isEmpty = false := by
  rcases hempty : idStr.isEmpty with - | -
  · rfl
  · rw [String.isEmpty_iff] at hempty
    subst hempty
    cases h

theorem constAt_of_contains {m : Json} {key : String} (h : m.contains key = true) :
    constAt m key = .ok (m.get key) := if_pos h

theorem constAt_of_missing {m : Json} {key : String} (h : m.contains key = false) :
    constAt m key = .error .missingKey := if_neg (Bool.eq_false_iff.mp h)

/-- An entry is read without a fault, if it is no object or has both members. -/
theorem readMoon_ok {uninitialised : ℤ} {m : Json}
    (h : m.isObject = true → m.contains "id" = true ∧ m.contains "domain" = true) :
    readMoon uninitialised m =
      .ok ((moonOf m).map fun p => (⟨p.1, p.2, [], uninitialised⟩ : ZgMoon)).toList := by
  unfold readMoon moonOf
  rcases hm : m.isObject with - | -
  · rfl
  · rw [constAt_of_contains (h hm).1, constAt_of_contains (h hm).2]
    show (if (jsonString (m.get "id") "").isEmpty || (jsonString (m.get "domain") "").isEmpty ||
        !isWorldId (jsonString (m.get "id") "") then (.ok [] : Except Stop (List ZgMoon)) else
        .ok [⟨CString.strtoull 16 (jsonString (m.get "id") ""), jsonString (m.get "domain") "", [],
          uninitialised⟩]) = _
    generalize jsonString (m.get "id") "" = idStr
    generalize jsonString (m.get "domain") "" = dom
    dsimp only
    rcases hworld : isWorldId idStr with - | -
    · rw [Bool.not_false, Bool.or_true, Bool.and_false]
      rfl
    · rw [isWorldId_nonempty hworld]
      rcases dom.isEmpty with - | -
      · rfl
      · rfl

theorem readMoon_error {uninitialised : ℤ} {m : Json} (hm : m.isObject = true)
    (h : ¬(m.contains "id" = true ∧ m.contains "domain" = true)) :
    readMoon uninitialised m = .error .missingKey := by
  unfold readMoon
  rw [hm]
  rcases hid : m.contains "id" with - | -
  · rw [constAt_of_missing hid]
    rfl
  · rcases hdomain : m.contains "domain" with - | -
    · rw [constAt_of_contains hid, constAt_of_missing hdomain]
      rfl
    · exact absurd ⟨hid, hdomain⟩ h

/-- **The moons that are read**, when every object among the entries has both members. -/
theorem readMoons_of_keyed {uninitialised : ℕ → ℤ} {mj : List Json} (h : Keyed mj) :
    readMoons uninitialised mj = .ok (moonsOf uninitialised mj) := by
  induction mj generalizing uninitialised with
  | nil => rfl
  | cons m mj ih =>
      obtain ⟨hm, hmj⟩ := List.forall_mem_cons.mp h
      unfold readMoons
      rw [readMoon_ok hm, ih hmj]
      rfl

theorem readMoons_of_not_keyed {uninitialised : ℕ → ℤ} {mj : List Json} (h : ¬Keyed mj) :
    readMoons uninitialised mj = .error .missingKey := by
  induction mj generalizing uninitialised with
  | nil => exact absurd (List.forall_mem_nil _) h
  | cons m mj ih =>
      unfold readMoons
      by_cases hm : m.isObject = true → m.contains "id" = true ∧ m.contains "domain" = true
      · rw [readMoon_ok hm, ih fun hmj => h (List.forall_mem_cons.mpr ⟨hm, hmj⟩)]
        rfl
      · obtain ⟨hobject, hmembers⟩ := Classical.not_imp.mp hm
        rw [readMoon_error hobject hmembers]
        rfl

/-! ### A reading as a whole -/

variable {R : Reading} {s s' : Settings} {lc : Json}

/-- **A reading that ends the process**, for one of the three reasons, or does not. -/
theorem readLocalSettings_eq {node : Option PhysicalPaths}
    (hlc : R.file.parse s.localConfig = .ok lc)
    (hmoons : Keyed (lc.get "zgalaxyMoons").elements) :
    readLocalSettings pton R s node =
      (applyPaths pton (R.networks lc) node).map fun node' =>
        (s.read pton lc R.envDomain
          (moonsOf R.uninitialised (lc.get "zgalaxyMoons").elements), node') := by
  unfold readLocalSettings
  rw [hlc]
  show (readMoons _ _ >>= _) = _
  rw [readMoons_of_keyed hmoons]
  rfl

theorem readLocalSettings_ok {node : Option PhysicalPaths} {x : Settings × Option PhysicalPaths}
    (h : readLocalSettings pton R s node = .ok x) :
    ∃ lc, R.file.parse s.localConfig = .ok lc ∧ Keyed (lc.get "zgalaxyMoons").elements ∧
      x.1 = s.read pton lc R.envDomain
        (moonsOf R.uninitialised (lc.get "zgalaxyMoons").elements) ∧
      applyPaths pton (R.networks lc) node = .ok x.2 := by
  rcases hlc : R.file.parse s.localConfig with stop | lc
  · unfold readLocalSettings at h
    rw [hlc] at h
    cases h
  · by_cases hmoons : Keyed (lc.get "zgalaxyMoons").elements
    · rw [readLocalSettings_eq hlc hmoons] at h
      rcases hnode : applyPaths pton (R.networks lc) node with stop | node'
      · rw [hnode] at h
        cases h
      · rw [hnode] at h
        obtain rfl := Except.ok.inj h
        exact ⟨lc, rfl, hmoons, rfl, hnode⟩
    · unfold readLocalSettings at h
      rw [hlc] at h
      change (readMoons _ _ >>= _) = _ at h
      rw [readMoons_of_not_keyed hmoons] at h
      cases h

theorem applyPaths_none {conf : LocalSettings} :
    applyPaths pton conf none = .ok none ↔ ∀ net, ¬conf.Configures pton net := by
  have hempty : (conf.paths pton).isEmpty = true ↔ ∀ net, ¬conf.Configures pton net := by
    rw [List.isEmpty_iff]
    constructor
    · intro hnil net hnet
      rw [← LocalSettings.mem_keys_paths, hnil] at hnet
      cases hnet
    · intro hnone
      refine List.eq_nil_iff_forall_not_mem.mpr fun e he => hnone e.1 ?_
      exact LocalSettings.mem_keys_paths.mp (List.mem_map_of_mem he)
  rw [← hempty]
  unfold applyPaths
  rcases (conf.paths pton).isEmpty with - | -
  · refine iff_of_false ?_ Bool.false_ne_true
    intro h
    cases h
  · exact iff_of_true rfl rfl

theorem isSet_of_mem_bindsOf {settings : Json} {ip : InetAddress}
    (h : ip ∈ bindsOf pton settings) : ip.isSet = true := by
  obtain ⟨bind, -, hbind⟩ := List.mem_filterMap.mp h
  dsimp only at hbind
  split_ifs at hbind with hempty hset
  obtain rfl := Option.some.inj hbind
  exact hset

/-! ### The two readings of a start -/

/-- **A safe start**: `run` reads the settings to the end before there is a node, leaving out the
moons and the addresses that are malformed, and once more when there is one, which leaves every
network that was read in the table of the node. -/
def StartsSafely (pton : InetPton) (controllerDbPath : String) (R : Reading) (again : ℕ → ℤ)
    (lc : Json) : Prop :=
  ∃ s s' node,
    readLocalSettings pton R (Settings.initial controllerDbPath) none = .ok (s, none) ∧
    readLocalSettings pton { R with uninitialised := again } s (some .empty) =
      .ok (s', some node) ∧
    s.moons.map ZgMoon.configured = (lc.get "zgalaxyMoons").elements.filterMap moonOf ∧
    (∀ ip ∈ s.explicitBind, ip.isSet = true) ∧
    ∀ e ∈ PhysicalPaths.clamped ((R.networks lc).paths pton), e ∈ node.entries

/-- A network that is configured and a moon without an id each end the process at once. -/
theorem first_reading_stops :
    ¬∀ (pton : InetPton) (controllerDbPath : String) (trustedPaths : List (List String))
      (l : List (String × Json)) (envDomain : String) (uninitialised again : ℕ → ℤ),
      StartsSafely pton controllerDbPath ⟨trustedPaths, .document (.object l), envDomain,
        uninitialised⟩ again (.object l) := by
  intro h
  obtain ⟨s, s', node, hfirst, -⟩ := h dotted.toInetPton "controller.d" []
    [("physical", .object [("10.0.0.0/8", .object [("trustedPathId", .unsigned 101010024)])])] ""
    (fun _ => 0) (fun _ => 0)
  obtain ⟨lc, hlc, -, -, hnode⟩ := readLocalSettings_ok hfirst
  obtain rfl := Except.ok.inj hlc
  refine applyPaths_none.mp hnode (.v4 0x0a000000 8)
    (Or.inr ⟨_, List.mem_singleton_self _, ⟨?_, ?_⟩, ?_⟩)
  · decide
  · rfl
  · decide

/-- **The start is safe** just when no network is configured, by the one file or the other, and
every object among the moons has an id and a domain. -/
theorem start_safe_iff (pton : InetPton) (controllerDbPath : String)
    (trustedPaths : List (List String)) (l : List (String × Json)) (envDomain : String)
    (uninitialised again : ℕ → ℤ) :
    StartsSafely pton controllerDbPath ⟨trustedPaths, .document (.object l), envDomain,
        uninitialised⟩ again (.object l) ↔
      (∀ net, ¬LocalSettings.Configures pton
        ⟨trustedPaths, (Json.object l).get "physical"⟩ net) ∧
      Keyed ((Json.object l).get "zgalaxyMoons").elements := by
  constructor
  · rintro ⟨s, s', node, hfirst, -⟩
    obtain ⟨lc, hlc, hmoons, -, hnode⟩ := readLocalSettings_ok hfirst
    obtain rfl := Except.ok.inj hlc
    exact ⟨applyPaths_none.mp hnode, hmoons⟩
  · rintro ⟨hnone, hmoons⟩
    have hfirst : readLocalSettings pton ⟨trustedPaths, .document (.object l), envDomain,
        uninitialised⟩ (Settings.initial controllerDbPath) none = _ :=
      readLocalSettings_eq rfl hmoons
    have hpaths : applyPaths pton (Reading.networks ⟨trustedPaths, .document (.object l), envDomain,
        uninitialised⟩ (.object l)) none = .ok none := applyPaths_none.mpr hnone
    rw [hpaths] at hfirst
    refine ⟨_, _, _, hfirst, readLocalSettings_eq rfl hmoons, map_configured_moonsOf _ _, ?_, ?_⟩
    · intro ip hip
      exact isSet_of_mem_bindsOf hip
    · -- there is nothing that the second reading would have to apply
      intro e he
      obtain ⟨x, hx, -⟩ := List.mem_map.mp he
      exact absurd (LocalSettings.mem_keys_paths.mp (List.mem_map_of_mem hx)) (hnone x.1)

end ZGalaxy.LocalConf
