/-
ZGalaxy/PhysicalPaths.lean

The networks that a node has settings for.

One table holds for every network an MTU and the id of a trusted path, zero for none.  It is
written by `setPhysicalPathConfiguration`, one network at a time, and by `readLocalSettings`, which
gathers the networks of the old `trustedpaths` file and of `local.conf` first.  A network that is
given an MTU only has the id zero.

Main result: `given_run`, that every id other than zero in the table was named for its network.
-/
import ZGalaxy.Json
import ZGalaxy.Machine
import ZGalaxy.SortedMap
import ZGalaxy.World

namespace ZGalaxy

/-! ### Addresses as text and as keys -/

/-- `inet_pton` for the two families: zeros for a text that is no address. -/
structure InetPton where
  v4 : String → BitVec 32
  v6 : String → BitVec 128

/-- A text as a C string: it ends at the first zero. -/
def cText (s : String) : String := String.ofList (s.toList.takeWhile fun c => c != Char.ofNat 0)

namespace InetAddress

/-- `InetAddress::fromString`. -/
def fromString (pton : InetPton) (ipSlashPort : String) : InetAddress :=
  if 64 ≤ ipSlashPort.utf8ByteSize then nil
  else
    let ip := String.ofList (ipSlashPort.toList.takeWhile (· != '/'))
    let portAt := String.ofList ((ipSlashPort.toList.dropWhile (· != '/')).drop 1)
    let port := (CString.strtoull 10 portAt).toUInt16
    if ':' ∈ ip.toList then v6 (pton.v6 ip) port
    else if '.' ∈ ip.toList then v4 (pton.v4 ip) port
    else nil

/-- `InetAddress(const char *)`, of the C string of a text. -/
def ofText (pton : InetPton) (s : String) : InetAddress := fromString pton (cText s)

/-- An integer in network order as a little-endian host compares it. -/
def hostOrder (n v : ℕ) : ℕ := ByteList.beNat (ByteList.beBytes n v).reverse

/-- `InetAddress::operator<`, on a little-endian host. -/
def lt : InetAddress → InetAddress → Bool
  | nil, nil => false
  | nil, _ => true
  | v4 ip port, v4 ip' port' =>
      hostOrder 2 port.toNat < hostOrder 2 port'.toNat
        || (port == port' && hostOrder 4 ip.toNat < hostOrder 4 ip'.toNat)
  | v4 _ _, v6 _ _ => true
  | v6 ip port, v6 ip' port' =>
      hostOrder 2 port.toNat < hostOrder 2 port'.toNat || (port == port' && ip.toNat < ip'.toNat)
  | _, _ => false

/-- A network whose netmask is no longer than its address. -/
def HasNetmask : InetAddress → Prop
  | v4 _ bits => bits ≤ 32
  | v6 _ bits => bits ≤ 128
  | nil => True

/-- What a build makes of `InetAddress::containsAddress`: the source shifts by a negative number
where the netmask is too long. -/
structure Containment where
  contains : InetAddress → InetAddress → Bool
  agrees : ∀ net addr, net.HasNetmask → contains net addr = containsAddress net addr

end InetAddress

/-! ### The table -/

/-- `ZT_MAX_CONFIGURABLE_PATHS`. -/
def maxConfigurablePaths : ℕ := 32

/-- `ZT_MIN_PHYSMTU`. -/
def minPhysMtu : Int32 := 510

/-- `ZT_MAX_PHYSMTU`. -/
def maxPhysMtu : Int32 := 10100 + 224

/-- `ZT_PhysicalPathConfiguration`. -/
structure PhysicalPathConfiguration where
  /-- zero for a path that is not trusted -/
  trustedPathId : UInt64
  mtu : Int32
deriving DecidableEq

/-- `Topology::_physicalPathConfig`, with `_numConfiguredPhysicalPaths` entries. -/
structure PhysicalPaths where
  entries : List (InetAddress × PhysicalPathConfiguration)
  numConfigured : entries.length ≤ maxConfigurablePaths

namespace PhysicalPaths

/-- No networks. -/
def empty : PhysicalPaths := ⟨[], Nat.zero_le _⟩

/-- A configuration with an MTU within the limits. -/
def clampMtu (pc : PhysicalPathConfiguration) : PhysicalPathConfiguration :=
  if pc.mtu ≤ 0 then { pc with mtu := 1432 }
  else if pc.mtu < minPhysMtu then { pc with mtu := minPhysMtu }
  else if maxPhysMtu < pc.mtu then { pc with mtu := maxPhysMtu }
  else pc

/-- `Topology::setPhysicalPathConfiguration`. -/
def setPhysicalPathConfiguration (T : PhysicalPaths) (pathNetwork : Option InetAddress)
    (pathConfig : Option PhysicalPathConfiguration) : PhysicalPaths :=
  match pathNetwork with
  | none => empty
  | some net =>
      let cpaths := T.entries.foldl (fun l e => SortedMap.set InetAddress.lt e.1 e.2 l) []
      let cpaths := match pathConfig with
        | some pc => SortedMap.set InetAddress.lt net (clampMtu pc) cpaths
        | none => SortedMap.erase net cpaths
      ⟨cpaths.take maxConfigurablePaths, List.length_take_le _ _⟩

/-- `Topology::shouldInboundPathBeTrusted`. -/
def shouldInboundPathBeTrusted (N : InetAddress.Containment) (T : PhysicalPaths)
    (physicalAddress : InetAddress) (trustedPathId : UInt64) : Bool :=
  T.entries.any fun e => e.2.trustedPathId == trustedPathId && N.contains e.1 physicalAddress

end PhysicalPaths

/-! ### Local settings -/

/-- `OSUtils::jsonInt`. -/
def jsonInt (jv : Json) (dfl : UInt64) : UInt64 :=
  match jv with
  | .integer i => i.toUInt64
  | .unsigned u => u
  | .real x => UInt64.ofInt x.trunc
  | .string s => CString.strtoull 10 s
  | .boolean b => if b then 1 else 0
  | _ => dfl

/-- What `readLocalSettings` reads: the lines of `trustedpaths`, each cut at blanks and `=`, and the
member `physical` of `local.conf`. -/
structure LocalSettings where
  trustedPaths : List (List String)
  physical : Json

namespace LocalSettings

variable (pton : InetPton)

/-- `ppc[net]`, written. -/
def writeAt (net : InetAddress) (f : PhysicalPathConfiguration → PhysicalPathConfiguration)
    (ppc : List (InetAddress × PhysicalPathConfiguration)) :
    List (InetAddress × PhysicalPathConfiguration) :=
  SortedMap.modify InetAddress.lt ⟨0, 0⟩ net f ppc

/-- A line of `trustedpaths`, split into words: an id and a network. -/
def trustedPath (words : List String) : UInt64 × InetAddress :=
  ((words[0]?.map (CString.strtoull 16)).getD 0,
    (words[1]?.map (InetAddress.ofText pton)).getD .nil)

/-- One turn of the loop over the lines. -/
def readTrustedPath (ppc : List (InetAddress × PhysicalPathConfiguration)) (words : List String) :
    List (InetAddress × PhysicalPathConfiguration) :=
  let trustedPathId := (trustedPath pton words).1
  let trustedPathNetwork := (trustedPath pton words).2
  if trustedPathId ≠ 0 ∧ trustedPathNetwork.isSet ∧ 0 < trustedPathNetwork.port then
    writeAt trustedPathNetwork (fun pc => { pc with trustedPathId := trustedPathId, mtu := 0 }) ppc
  else ppc

/-- One turn of the loop over `physical`. -/
def readPhysical (ppc : List (InetAddress × PhysicalPathConfiguration)) (phy : String × Json) :
    List (InetAddress × PhysicalPathConfiguration) :=
  let net := InetAddress.ofText pton phy.1
  if net.isSet ∧ phy.2.isObject then
    let tpid := jsonInt (phy.2.get "trustedPathId") 0
    let ppc := if tpid ≠ 0 then writeAt net (fun pc => { pc with trustedPathId := tpid }) ppc else ppc
    -- 0 means use default
    writeAt net (fun pc => { pc with mtu := (jsonInt (phy.2.get "mtu") 0).toUInt32.toInt32 }) ppc
  else ppc

/-- The networks that are gathered. -/
def paths (conf : LocalSettings) : List (InetAddress × PhysicalPathConfiguration) :=
  conf.physical.members.foldl (readPhysical pton)
    (conf.trustedPaths.foldl (readTrustedPath pton) [])

end LocalSettings

/-- `OneServiceImpl::readLocalSettings`, as far as it is about physical paths. -/
def readLocalSettings (pton : InetPton) (T : PhysicalPaths) (conf : LocalSettings) :
    PhysicalPaths :=
  (conf.paths pton).foldl (fun T e => T.setPhysicalPathConfiguration (some e.1) (some e.2)) T

/-- What writes the table. -/
inductive PathEvent
  | setPhysicalPathConfiguration (pathNetwork : Option InetAddress)
      (pathConfig : Option PhysicalPathConfiguration)
  | readLocalSettings (conf : LocalSettings)

/-- The table of a node. -/
def physicalPaths (pton : InetPton) : Machine PhysicalPaths PathEvent Empty where
  step T
    | .setPhysicalPathConfiguration pathNetwork pathConfig =>
        (T.setPhysicalPathConfiguration pathNetwork pathConfig, [])
    | .readLocalSettings conf => (readLocalSettings pton T conf, [])

/-! ### Which ids were given -/

variable {pton : InetPton} {T : PhysicalPaths} {net : InetAddress} {id : UInt64}

/-- Local settings name a network with an id. -/
def LocalSettings.Gives (pton : InetPton) (conf : LocalSettings) (net : InetAddress) (id : UInt64) :
    Prop :=
  (∃ line ∈ conf.trustedPaths, trustedPath pton line = (id, net)) ∨
    ∃ phy ∈ conf.physical.members, InetAddress.ofText pton phy.1 = net ∧ phy.2.isObject = true ∧
      jsonInt (phy.2.get "trustedPathId") 0 = id

/-- A call names a network with an id. -/
def PathEvent.Gives (pton : InetPton) (net : InetAddress) (id : UInt64) : PathEvent → Prop
  | .setPhysicalPathConfiguration pathNetwork pathConfig =>
      pathNetwork = some net ∧ ∃ pc, pathConfig = some pc ∧ pc.trustedPathId = id
  | .readLocalSettings conf => conf.Gives pton net id

namespace PhysicalPaths

theorem clampMtu_trustedPathId (pc : PhysicalPathConfiguration) :
    (clampMtu pc).trustedPathId = pc.trustedPathId := by
  unfold clampMtu
  split_ifs
  · rfl
  · rfl
  · rfl
  · rfl

theorem mem_setPhysicalPathConfiguration {pathNetwork : Option InetAddress}
    {pathConfig : Option PhysicalPathConfiguration} {e : InetAddress × PhysicalPathConfiguration}
    (h : e ∈ (T.setPhysicalPathConfiguration pathNetwork pathConfig).entries) :
    e ∈ T.entries ∨
      (PathEvent.setPhysicalPathConfiguration pathNetwork pathConfig).Gives pton e.1
        e.2.trustedPathId := by
  have hcopy : ∀ x, x ∈ T.entries.foldl (fun l e => SortedMap.set InetAddress.lt e.1 e.2 l) [] →
      x ∈ T.entries := by
    intro x hx
    rcases SortedMap.mem_foldl_set hx with hx | hx
    · cases hx
    · exact hx
  rcases pathNetwork with - | net
  · cases h
  · rcases pathConfig with - | pc
    · exact Or.inl (hcopy e (SortedMap.mem_erase (List.mem_of_mem_take h)))
    · rcases SortedMap.mem_set (List.mem_of_mem_take h) with h | rfl
      · exact Or.inl (hcopy e h)
      · exact Or.inr ⟨rfl, pc, rfl, (clampMtu_trustedPathId pc).symm⟩

end PhysicalPaths

namespace LocalSettings

variable {conf : LocalSettings} {ppc : List (InetAddress × PhysicalPathConfiguration)}
  {e : InetAddress × PhysicalPathConfiguration}

/-- An entry written with `writeAt` was there with the same id, or has the id that `f` gives it. -/
theorem mem_at {f : PhysicalPathConfiguration → PhysicalPathConfiguration}
    (h : e ∈ writeAt net f ppc) :
    e ∈ ppc ∨ e.1 = net ∧ ∃ pc, e.2 = f pc ∧ (pc.trustedPathId = 0 ∨ (net, pc) ∈ ppc) := by
  rcases SortedMap.mem_modify h with h | ⟨hnet, h | ⟨pc, hpc, h⟩⟩
  · exact Or.inl h
  · exact Or.inr ⟨hnet, _, h, Or.inl rfl⟩
  · exact Or.inr ⟨hnet, pc, h, Or.inr hpc⟩

/-- Every id other than zero was named. -/
def Named (pton : InetPton) (conf : LocalSettings)
    (ppc : List (InetAddress × PhysicalPathConfiguration)) : Prop :=
  ∀ e ∈ ppc, e.2.trustedPathId ≠ 0 → conf.Gives pton e.1 e.2.trustedPathId

theorem named_readTrustedPath (h : Named pton conf ppc) {line : List String}
    (hline : line ∈ conf.trustedPaths) : Named pton conf (readTrustedPath pton ppc line) := by
  intro e he hid
  unfold readTrustedPath at he
  dsimp only at he
  split_ifs at he with hvalid
  · rcases mem_at he with he | ⟨hnet, pc, hpc, -⟩
    · exact h e he hid
    · refine Or.inl ⟨line, hline, ?_⟩
      rw [hnet, hpc]
  · exact h e he hid

/-- Writing an MTU writes no id. -/
theorem named_mtu {mtu : Int32} (h : Named pton conf ppc) :
    Named pton conf (writeAt net (fun pc => { pc with mtu := mtu }) ppc) := by
  intro e he hid
  rcases mem_at he with he | ⟨hnet, pc, hpc, hold⟩
  · exact h e he hid
  · rw [hpc] at hid ⊢
    rcases hold with hzero | hold
    · exact absurd hzero hid
    · rw [hnet]
      exact h _ hold hid

theorem named_readPhysical (h : Named pton conf ppc) {phy : String × Json}
    (hphy : phy ∈ conf.physical.members) : Named pton conf (readPhysical pton ppc phy) := by
  unfold readPhysical
  dsimp only
  split_ifs with hvalid hid
  · -- the id is written, and then the MTU of the same entry
    refine named_mtu fun e he hne => ?_
    rcases mem_at he with he | ⟨hnet, pc, hpc, -⟩
    · exact h e he hne
    · refine Or.inr ⟨phy, hphy, hnet.symm, hvalid.2, ?_⟩
      rw [hpc]
  · exact named_mtu h
  · exact h

theorem named_paths (pton : InetPton) (conf : LocalSettings) :
    Named pton conf (conf.paths pton) := by
  have hlines : Named pton conf (conf.trustedPaths.foldl (readTrustedPath pton) []) :=
    List.foldlRecOn _ _ (fun e he => absurd he List.not_mem_nil)
      fun _ h _ hline => named_readTrustedPath h hline
  exact List.foldlRecOn _ _ hlines fun _ h _ hphy => named_readPhysical h hphy

end LocalSettings

/-! ### The table over a run -/

theorem mem_readLocalSettings {conf : LocalSettings} :
    ∀ e ∈ (readLocalSettings pton T conf).entries,
    e.2.trustedPathId ≠ 0 → e ∈ T.entries ∨ conf.Gives pton e.1 e.2.trustedPathId := by
  refine List.foldlRecOn (motive := fun T' : PhysicalPaths => ∀ e ∈ T'.entries,
    e.2.trustedPathId ≠ 0 → e ∈ T.entries ∨ conf.Gives pton e.1 e.2.trustedPathId)
    (conf.paths pton) _ (fun e he _ => Or.inl he) fun T' ih x hx e he hid => ?_
  rcases (PhysicalPaths.mem_setPhysicalPathConfiguration he : _ ∨
    PathEvent.Gives pton _ _ _) with he | hgives
  · exact ih e he hid
  · obtain ⟨hnet, pc, hpc, hgiven⟩ := hgives
    obtain rfl := Option.some.inj hpc
    rw [← hgiven] at hid ⊢
    rw [← Option.some.inj hnet]
    exact Or.inr (LocalSettings.named_paths pton conf x hx hid)

/-- **A step of the table**: an entry with an id was there before, or the event gave it. -/
theorem physicalPaths_step {ev : PathEvent} {e : InetAddress × PhysicalPathConfiguration}
    (h : e ∈ ((physicalPaths pton).step T ev).1.entries) (hid : e.2.trustedPathId ≠ 0) :
    e ∈ T.entries ∨ ev.Gives pton e.1 e.2.trustedPathId := by
  cases ev with
  | setPhysicalPathConfiguration pathNetwork pathConfig =>
      exact PhysicalPaths.mem_setPhysicalPathConfiguration h
  | readLocalSettings conf => exact mem_readLocalSettings e h hid

/-- Every id other than zero in the table was named for its network by an event. -/
def Given (pton : InetPton) (es : List PathEvent) (T : PhysicalPaths) : Prop :=
  ∀ e ∈ T.entries, e.2.trustedPathId ≠ 0 → ∃ ev ∈ es, ev.Gives pton e.1 e.2.trustedPathId

theorem Given.concat {es : List PathEvent} (h : Given pton es T) (ev : PathEvent) :
    Given pton (es ++ [ev]) ((physicalPaths pton).step T ev).1 := by
  intro e he hid
  rcases physicalPaths_step he hid with he | hgives
  · obtain ⟨ev', hev', hgives⟩ := h e he hid
    exact ⟨ev', List.mem_append_left _ hev', hgives⟩
  · exact ⟨ev, List.mem_append_right _ (List.mem_singleton_self ev), hgives⟩

/-- **The ids in the table were given**, in every run. -/
theorem given_run (pton : InetPton) (es : List PathEvent) :
    Given pton es ((physicalPaths pton).runState .empty es) :=
  Machine.invariant_run (C := fun _ _ => True) (fun _ _ ev h _ => h.concat ev) (h := [])
    (fun _ he => absurd he List.not_mem_nil) (Machine.guarded_true _ _ es)

end ZGalaxy
