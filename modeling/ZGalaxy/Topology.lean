/-
ZGalaxy/Topology.lean

The planet, the moons and the upstream peers that a node knows.

Worlds come in from other nodes and from the store (`addWorld`, `addMoon`), a planet and a
moon get refreshed endpoints for their first root (`setPlanetEndpoints`, `setMoonEndpoints`),
and after each change the addresses of all roots are gathered anew (`memoizeUpstreams`).  The
peers of these addresses are kept when peers that have gone silent are dropped.

A run folds these calls from the state that the constructor makes of a stored planet.  What a
call can do is said once: `step_cases`, which every fact about runs is derived from.
-/
import ZGalaxy.Endpoints
import ZGalaxy.Machine
import ZGalaxy.Membership

namespace ZGalaxy

open ByteList

/-! ### Peers -/

/-- `Peer`, by its identity. -/
structure Peer where
  identity : Identity
deriving DecidableEq

namespace Peer

/-- What `Peer::deserializeFromCache` reads.  The paths that follow are tried, not restored. -/
def readCache : Reader ZTException (Option Peer) := do
  let version ← Buffer.nextByte
  if version ≠ 2 then
    pure none
  else
    let id ← Identity.deserialize
    if id.address.isSet then
      let _vProto ← Buffer.nextUInt 2
      let _vMajor ← Buffer.nextUInt 2
      let _vMinor ← Buffer.nextUInt 2
      let _vRevision ← Buffer.nextUInt 2
      let _tryPathCount ← Buffer.nextUInt 2
      pure (some ⟨id⟩)
    else
      pure none

/-- `Peer::deserializeFromCache`. -/
def deserializeFromCache (b : Bytes) : Option Peer :=
  match readCache b 0 with
  | .ok (peer, _) => peer
  | .error _ => none

end Peer

/-! ### State -/

/-- The kinds of objects that the node stores for a topology. -/
inductive StateObject
  | planet
  | moon
deriving DecidableEq

/-- What a topology hands to the node. -/
inductive TopologyOutput
  | stateObjectPut (type : StateObject) (id : UInt64) (data : Bytes)
  | stateObjectDelete (type : StateObject) (id : UInt64)
  /-- `_savePeer`. -/
  | savePeer (peer : Peer)
deriving DecidableEq

/-- `Topology`, with the identity of the node. -/
structure Topology where
  identity : Identity
  planet : World
  moons : List World
  moonSeeds : List (UInt64 × Address)
  upstreamAddresses : List Address
  amUpstream : Bool
  peers : Hashtable Address Peer

/-- What an operation returned, left behind and handed to the node. -/
structure Outcome where
  returned : Bool
  topology : Topology
  outputs : List TopologyOutput

/-- `peers[a]`, filled with a peer if it is null. -/
def fillPeer (peers : Hashtable Address Peer) (a : Address) (p : Peer) : Hashtable Address Peer :=
  match peers.get a with
  | some _ => peers
  | none => peers.set a p

/-! ### Upstreams -/

/-- What `_memoizeUpstreams` has gathered so far. -/
structure Upstreams where
  addresses : List Address
  amUpstream : Bool
  peers : Hashtable Address Peer

/-- One turn of its loops over roots. -/
def memoizeRoot (me : Identity) (u : Upstreams) (root : Root) : Upstreams :=
  if root.identity = me then
    { u with amUpstream := true }
  else if root.identity.address ∈ u.addresses then
    u
  else
    { u with
      addresses := u.addresses ++ [root.identity.address]
      peers := fillPeer u.peers root.identity.address ⟨root.identity⟩ }

namespace Topology

/-- The upstreams of the planet and then of the moons. -/
def gatherUpstreams (t : Topology) : Upstreams :=
  t.moons.foldl (fun u m => m.roots.foldl (memoizeRoot t.identity) u)
    (t.planet.roots.foldl (memoizeRoot t.identity) ⟨[], false, t.peers⟩)

/-- `Topology::_memoizeUpstreams`. -/
def memoizeUpstreams (t : Topology) : Topology :=
  { t with
    upstreamAddresses := t.gatherUpstreams.addresses.mergeSort (· ≤ ·)
    amUpstream := t.gatherUpstreams.amUpstream
    peers := t.gatherUpstreams.peers }

/-! ### Operations -/

/-- Nothing happens. -/
def unchanged (t : Topology) : Outcome := ⟨false, t, []⟩

/-- A world is put into the store, unless it does not fit in the buffer. -/
def persist (type : StateObject) (w : World) : List TopologyOutput :=
  match w.serialize false with
  | .ok data => [.stateObjectPut type w.id data]
  | .error _ => []

/-- The end of `addWorld`, for a world that is in its place. -/
def added (type : StateObject) (w : World) (t : Topology) : Outcome :=
  ⟨true, t.memoizeUpstreams, persist type w⟩

/-- The first moon with the id becomes `w`. -/
def replaceMoon (id : UInt64) (w : World) : List World → List World
  | [] => []
  | m :: moons => if m.id = id then w :: moons else m :: replaceMoon id w moons

/-- A seed waits for a moon that has its address among the roots. -/
def awaits (w : World) (seed : UInt64 × Address) : Bool :=
  seed.1 == w.id && w.roots.any fun r => r.identity.address == seed.2

variable (ecc : Ecc)

/-- `Topology::addWorld`. -/
def addWorld (t : Topology) (newWorld : World) (alwaysAcceptNew : Bool) :
    Except ZTException Outcome :=
  match newWorld.type with
  | .null => .ok t.unchanged
  | .planet =>
      (t.planet.shouldBeReplacedBy ecc newWorld).map fun replaced =>
        if replaced then added .planet newWorld { t with planet := newWorld } else t.unchanged
  | .moon =>
      match t.moons.find? fun m => m.id == newWorld.id with
      | some existing =>
          (existing.shouldBeReplacedBy ecc newWorld).map fun replaced =>
            if replaced then
              added .moon newWorld { t with moons := replaceMoon newWorld.id newWorld t.moons }
            else t.unchanged
      | none =>
          if alwaysAcceptNew then
            .ok (added .moon newWorld { t with moons := t.moons ++ [newWorld] })
          else if t.moonSeeds.any (awaits newWorld) then
            .ok (added .moon newWorld { t with
              moonSeeds := t.moonSeeds.eraseP (awaits newWorld)
              moons := t.moons ++ [newWorld] })
          else .ok t.unchanged

/-- A stored world, if it can be read. -/
def loadWorld (stored : Bytes) : Option World :=
  if stored = [] ∨ worldMaxSerializedLength < stored.length then none
  else (World.deserialize stored).toOption

/-- `Topology::Topology`, with what is stored for the planet. -/
def new (identity : Identity) (stored : Bytes) : Topology :=
  let t : Topology := ⟨identity, .null, [], [], [], false, .empty 64 (by norm_num)⟩
  match loadWorld stored with
  | none => t
  | some cachedPlanet =>
      match addWorld ecc t cachedPlanet false with
      | .ok o => o.topology
      | .error _ => t

/-- What both refreshes of endpoints compute: the address of the first root and the world with
its merged endpoints.  Nothing if there are no roots, no endpoints or no change. -/
def refresh (w : World) (eps : List InetAddress) : Option (Address × World) :=
  match w.roots with
  | [] => none
  | root :: _ =>
      let newEps := zgMergeRootEndpoints root eps
      if newEps = [] then none
      else if zgSameEndpoints root newEps then none
      else some (root.identity.address, w.setRootStableEndpoints 0 newEps)

/-- The end of both: the world is put, the peer of the first root dropped. -/
def refreshed (type : StateObject) (w : World) (a : Address) (t : Topology) : Outcome :=
  ⟨true, { t with peers := t.peers.erase a }.memoizeUpstreams, persist type w⟩

/-- `Topology::setPlanetEndpoints`. -/
def setPlanetEndpoints (t : Topology) (eps : List InetAddress) : Outcome :=
  if t.planet.isSet then
    match refresh t.planet eps with
    | none => t.unchanged
    | some (a, planet) => refreshed .planet planet a { t with planet := planet }
  else t.unchanged

/-- `Topology::setMoonEndpoints`. -/
def setMoonEndpoints (t : Topology) (worldId : UInt64) (eps : List InetAddress) : Outcome :=
  match t.moons.find? fun m => m.id == worldId with
  | none => t.unchanged
  | some m =>
      match refresh m eps with
      | none => t.unchanged
      | some (a, moon) =>
          refreshed .moon moon a { t with moons := replaceMoon worldId moon t.moons }

/-- The stored moon with the id, if there is one. -/
def loadMoon (id : UInt64) (stored : Bytes) : Option World :=
  (loadWorld stored).filter fun w => w.type == .moon && w.id == id

/-- A seed is added, unless it is null or known. -/
def addSeed (t : Topology) (id : UInt64) (seed : Address) : Topology :=
  if seed.isSet ∧ (id, seed) ∉ t.moonSeeds then
    { t with moonSeeds := t.moonSeeds ++ [(id, seed)] }
  else t

/-- `Topology::addMoon`, with what is stored for the moon. -/
def addMoon (t : Topology) (id : UInt64) (seed : Address) (stored : Bytes) :
    Topology × List TopologyOutput :=
  match loadMoon id stored with
  | none => (t.addSeed id seed, [])
  | some w =>
      match addWorld ecc t w true with
      | .ok o => (o.topology, o.outputs)
      | .error _ => (t.addSeed id seed, [])

/-- `Topology::removeMoon`. -/
def removeMoon (t : Topology) (id : UInt64) : Topology × List TopologyOutput :=
  ({ t with
      moons := t.moons.filter fun m => m.id != id
      moonSeeds := t.moonSeeds.filter fun s => s.1 != id }.memoizeUpstreams,
    (t.moons.filter fun m => m.id == id).map fun _ => .stateObjectDelete .moon id)

/-- `Topology::addPeer`. -/
def addPeer (t : Topology) (peer : Peer) : Option Peer × Topology :=
  let peers := fillPeer t.peers peer.identity.address peer
  (peers.get peer.identity.address, { t with peers := peers })

/-- `Topology::getPeer`, with what is stored for the peer. -/
def getPeer (t : Topology) (zta : Address) (stored : Bytes) : Option Peer × Topology :=
  if zta = t.identity.address then
    (none, t)
  else
    match t.peers.get zta with
    | some ap => (some ap, t)
    | none =>
        if stored = [] then
          (none, t)
        else
          -- a peer that is not read leaves no entry behind
          match Peer.deserializeFromCache stored with
          | none => (none, { t with peers := t.peers.erase zta })
          | some ap => (none, { t with peers := t.peers.set zta ap })

/-- A peer that `doPeriodicTasks` keeps. -/
def keeps (t : Topology) (isAlive : Address → Bool) (a : Address) : Bool :=
  isAlive a || decide (a ∈ t.upstreamAddresses)

/-- `Topology::doPeriodicTasks`, as far as it is about peers. -/
def doPeriodicTasks (t : Topology) (isAlive : Address → Bool) : Topology × List TopologyOutput :=
  ({ t with peers := t.peers.retain fun a _ => t.keeps isAlive a },
    (t.peers.entries.filter fun e => !t.keeps isAlive e.1).map fun e => .savePeer e.2)

end Topology

/-! ### Runs -/

/-- What a topology is called with. -/
inductive TopologyEvent
  | addWorld (newWorld : World) (alwaysAcceptNew : Bool)
  | setPlanetEndpoints (eps : List InetAddress)
  | setMoonEndpoints (worldId : UInt64) (eps : List InetAddress)
  | addMoon (id : UInt64) (seed : Address) (stored : Bytes)
  | removeMoon (id : UInt64)
  | addPeer (peer : Peer)
  | getPeer (zta : Address) (stored : Bytes)
  | doPeriodicTasks (isAlive : Address → Bool)

/-- A topology taking calls.  A call that throws leaves it as it was. -/
def topology (ecc : Ecc) : Machine Topology TopologyEvent TopologyOutput where
  step t
    | .addWorld newWorld alwaysAcceptNew =>
        match t.addWorld ecc newWorld alwaysAcceptNew with
        | .ok o => (o.topology, o.outputs)
        | .error _ => (t, [])
    | .setPlanetEndpoints eps =>
        ((t.setPlanetEndpoints eps).topology, (t.setPlanetEndpoints eps).outputs)
    | .setMoonEndpoints worldId eps =>
        ((t.setMoonEndpoints worldId eps).topology, (t.setMoonEndpoints worldId eps).outputs)
    | .addMoon id seed stored => t.addMoon ecc id seed stored
    | .removeMoon id => t.removeMoon id
    | .addPeer peer => ((t.addPeer peer).2, [])
    | .getPeer zta stored => ((t.getPeer zta stored).2, [])
    | .doPeriodicTasks isAlive => t.doPeriodicTasks isAlive

namespace Topology

variable {ecc : Ecc} {t t' : Topology}

/-! ### What gathering leaves alone -/

@[simp] theorem memoizeUpstreams_identity (t : Topology) :
    t.memoizeUpstreams.identity = t.identity := rfl

@[simp] theorem memoizeUpstreams_planet (t : Topology) :
    t.memoizeUpstreams.planet = t.planet := rfl

@[simp] theorem memoizeUpstreams_moons (t : Topology) : t.memoizeUpstreams.moons = t.moons := rfl

theorem get_fillPeer (peers : Hashtable Address Peer) (a : Address) (p : Peer) (k : Address) :
    (fillPeer peers a p).get k = if k = a then some ((peers.get a).getD p) else peers.get k := by
  unfold fillPeer
  rcases ha : peers.get a with - | q
  · rw [Hashtable.get_set]
    rfl
  · by_cases hk : k = a
    · rw [if_pos hk, hk]
      exact ha
    · rw [if_neg hk]

/-- A peer that is there stays there. -/
theorem isSome_fillPeer {peers : Hashtable Address Peer} {k : Address} (a : Address) (p : Peer)
    (h : (peers.get k).isSome) : ((fillPeer peers a p).get k).isSome := by
  rw [get_fillPeer]
  split_ifs with hk
  · rfl
  · exact h

/-! ### What a step can do -/

/-- The places a new world can take. -/
inductive Accepts (ecc : Ecc) (t : Topology) (w : World) : Topology → Prop
  | planet (type : w.type = .planet) (replaces : t.planet.shouldBeReplacedBy ecc w = .ok true) :
      Accepts ecc t w { t with planet := w }
  | moon {m : World} (type : w.type = .moon) (stored : t.moons.find? (·.id == w.id) = some m)
      (replaces : m.shouldBeReplacedBy ecc w = .ok true) :
      Accepts ecc t w { t with moons := replaceMoon w.id w t.moons }
  | newMoon (type : w.type = .moon) (stored : t.moons.find? (·.id == w.id) = none)
      (moonSeeds : List (UInt64 × Address)) :
      Accepts ecc t w { t with moonSeeds := moonSeeds, moons := t.moons ++ [w] }

/-- **A world that is added** takes one of these places; else nothing happens. -/
theorem addWorld_cases {w : World} {alwaysAcceptNew : Bool} {o : Outcome}
    (h : addWorld ecc t w alwaysAcceptNew = .ok o) :
    o = t.unchanged ∨ ∃ t₁ type, Accepts ecc t w t₁ ∧ o = added type w t₁ := by
  unfold addWorld at h
  rcases htype : w.type with - | - | -
  · rw [htype] at h
    exact Or.inl (Except.ok.inj h).symm
  · rw [htype] at h
    dsimp only at h
    rcases hreplaced : t.planet.shouldBeReplacedBy ecc w with e | replaced
    · rw [hreplaced] at h
      cases h
    · rw [hreplaced] at h
      obtain rfl := Except.ok.inj h
      rcases replaced with - | -
      · exact Or.inl rfl
      · exact Or.inr ⟨_, _, .planet htype hreplaced, rfl⟩
  · rw [htype] at h
    dsimp only at h
    rcases hfind : t.moons.find? fun m => m.id == w.id with - | m
    · rw [hfind] at h
      dsimp only at h
      split_ifs at h with hnew hseed
      · obtain rfl := Except.ok.inj h
        exact Or.inr ⟨_, _, .newMoon htype hfind t.moonSeeds, rfl⟩
      · obtain rfl := Except.ok.inj h
        exact Or.inr ⟨_, _, .newMoon htype hfind _, rfl⟩
      · exact Or.inl (Except.ok.inj h).symm
    · rw [hfind] at h
      dsimp only at h
      rcases hreplaced : m.shouldBeReplacedBy ecc w with e | replaced
      · rw [hreplaced] at h
        cases h
      · rw [hreplaced] at h
        obtain rfl := Except.ok.inj h
        rcases replaced with - | -
        · exact Or.inl rfl
        · exact Or.inr ⟨_, _, .moon htype hfind hreplaced, rfl⟩

/-- The worlds and what was gathered of them stay, and so do the peers of the upstreams. -/
structure Quiet (t t' : Topology) : Prop where
  identity : t'.identity = t.identity
  planet : t'.planet = t.planet
  moons : t'.moons = t.moons
  upstreamAddresses : t'.upstreamAddresses = t.upstreamAddresses
  amUpstream : t'.amUpstream = t.amUpstream
  peers : ∀ a ∈ t.upstreamAddresses, (t.peers.get a).isSome → (t'.peers.get a).isSome

theorem Quiet.refl (t : Topology) : Quiet t t := ⟨rfl, rfl, rfl, rfl, rfl, fun _ _ h => h⟩

/-- The calls that bring in a world. -/
def Brings (e : TopologyEvent) (w : World) : Prop :=
  (∃ alwaysAcceptNew, e = .addWorld w alwaysAcceptNew) ∨
    ∃ id seed stored, e = .addMoon id seed stored ∧ loadMoon id stored = some w

/-- The ways a step can go. -/
inductive Step (ecc : Ecc) (t : Topology) : TopologyEvent → Topology → Prop
  | quiet {e : TopologyEvent} {t' : Topology} (same : Quiet t t') : Step ecc t e t'
  | added {e : TopologyEvent} {w : World} {t₁ : Topology} (brings : Brings e w)
      (accepts : Accepts ecc t w t₁) : Step ecc t e t₁.memoizeUpstreams
  | planetRefreshed {eps : List InetAddress} {a : Address} {planet : World}
      (refresh : refresh t.planet eps = some (a, planet)) :
      Step ecc t (.setPlanetEndpoints eps)
        { t with planet := planet, peers := t.peers.erase a }.memoizeUpstreams
  | moonRefreshed {worldId : UInt64} {eps : List InetAddress} {a : Address} {m moon : World}
      (stored : t.moons.find? (·.id == worldId) = some m)
      (refresh : refresh m eps = some (a, moon)) :
      Step ecc t (.setMoonEndpoints worldId eps)
        { t with
          moons := replaceMoon worldId moon t.moons
          peers := t.peers.erase a }.memoizeUpstreams
  | moonRemoved (id : UInt64) :
      Step ecc t (.removeMoon id)
        { t with
          moons := t.moons.filter fun m => m.id != id
          moonSeeds := t.moonSeeds.filter fun s => s.1 != id }.memoizeUpstreams

theorem quiet_addSeed (t : Topology) (id : UInt64) (seed : Address) :
    Quiet t (t.addSeed id seed) := by
  unfold addSeed
  split_ifs
  · exact ⟨rfl, rfl, rfl, rfl, rfl, fun _ _ h => h⟩
  · exact .refl t

theorem quiet_getPeer (t : Topology) (zta : Address) (stored : Bytes) :
    Quiet t (t.getPeer zta stored).2 := by
  unfold getPeer
  by_cases hme : zta = t.identity.address
  · rw [if_pos hme]
    exact .refl t
  rw [if_neg hme]
  rcases hget : t.peers.get zta with - | ap
  · -- the table had no peer of this address to lose
    have hne : ∀ a, (t.peers.get a).isSome → a ≠ zta := by
      rintro a ha rfl
      rw [hget] at ha
      cases ha
    by_cases hstored : stored = []
    · rw [if_pos hstored]
      exact .refl t
    rw [if_neg hstored]
    rcases Peer.deserializeFromCache stored with - | ap
    · refine ⟨rfl, rfl, rfl, rfl, rfl, fun a _ ha => ?_⟩
      show ((t.peers.erase zta).get a).isSome
      rwa [Hashtable.get_erase, if_neg (hne a ha)]
    · refine ⟨rfl, rfl, rfl, rfl, rfl, fun a _ ha => ?_⟩
      show ((t.peers.set zta ap).get a).isSome
      rwa [Hashtable.get_set, if_neg (hne a ha)]
  · exact .refl t

theorem quiet_doPeriodicTasks (t : Topology) (isAlive : Address → Bool) :
    Quiet t (t.doPeriodicTasks isAlive).1 := by
  refine ⟨rfl, rfl, rfl, rfl, rfl, fun a ha hpeer => ?_⟩
  show ((t.peers.retain fun a _ => t.keeps isAlive a).get a).isSome
  have hkeeps : t.keeps isAlive a = true := by
    rw [keeps, decide_eq_true ha, Bool.or_true]
  rw [Hashtable.get_retain, hkeeps]
  obtain ⟨p, hp⟩ := Option.isSome_iff_exists.mp hpeer
  rw [hp]
  rfl

theorem step_addWorld {e : TopologyEvent} {w : World} {alwaysAcceptNew : Bool} {o : Outcome}
    (he : Brings e w) (h : addWorld ecc t w alwaysAcceptNew = .ok o) :
    Step ecc t e o.topology := by
  rcases addWorld_cases h with rfl | ⟨t₁, type, haccepts, rfl⟩
  · exact .quiet (.refl t)
  · exact .added he haccepts

/-- **The step lemma**: every step goes one of these ways. -/
theorem step_cases (ecc : Ecc) (t : Topology) (e : TopologyEvent) :
    Step ecc t e ((topology ecc).step t e).1 := by
  rcases e with ⟨w, new⟩ | eps | ⟨worldId, eps⟩ | ⟨id, seed, stored⟩ | id | peer | ⟨zta,
    stored⟩ | isAlive
  · show Step ecc t _ (match addWorld ecc t w new with
      | .ok o => (o.topology, o.outputs)
      | .error _ => (t, [])).1
    rcases h : addWorld ecc t w new with err | o
    · exact .quiet (.refl t)
    · exact step_addWorld (Or.inl ⟨new, rfl⟩) h
  · show Step ecc t _ (t.setPlanetEndpoints eps).topology
    unfold setPlanetEndpoints
    split_ifs
    · rcases h : refresh t.planet eps with - | ⟨a, planet⟩
      · exact .quiet (.refl t)
      · exact .planetRefreshed h
    · exact .quiet (.refl t)
  · show Step ecc t _ (t.setMoonEndpoints worldId eps).topology
    unfold setMoonEndpoints
    rcases hfind : t.moons.find? fun m => m.id == worldId with - | m
    · rw [hfind]
      exact .quiet (.refl t)
    · rw [hfind]
      dsimp only
      rcases h : refresh m eps with - | ⟨a, moon⟩
      · exact .quiet (.refl t)
      · exact .moonRefreshed hfind h
  · show Step ecc t _ (t.addMoon ecc id seed stored).1
    unfold addMoon
    rcases hload : loadMoon id stored with - | w
    · exact .quiet (quiet_addSeed t id seed)
    · dsimp only
      rcases h : addWorld ecc t w true with err | o
      · exact .quiet (quiet_addSeed t id seed)
      · exact step_addWorld (Or.inr ⟨id, seed, stored, rfl, hload⟩) h
  · exact .moonRemoved id
  · refine .quiet ⟨rfl, rfl, rfl, rfl, rfl, fun a _ h => ?_⟩
    exact isSome_fillPeer _ _ h
  · exact .quiet (quiet_getPeer t zta stored)
  · exact .quiet (quiet_doPeriodicTasks t isAlive)

end Topology

end ZGalaxy
