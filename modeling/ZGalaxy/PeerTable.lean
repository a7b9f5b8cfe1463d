/-
ZGalaxy/PeerTable.lean

The table of peers as the source has it: shared pointers, which can be null.

`operator[]` puts a null pointer under an absent key before it is filled, and other operations
follow the pointers without a check.  The pointers are kept beside the topology, whose own table has
no null entries, and every operation keeps the two alike (`represents_step`); so no pointer is null
after an operation, and none that is followed.

What does go wrong is `getPeer`: where it reads a peer from the cache it leaves it in the table,
under the address it was asked for, and returns null.  `coherent_iff` says exactly which runs are
coherent.
-/
import ZGalaxy.Upstreams

namespace ZGalaxy

open ByteList

/-- `_peers`: each address has a `SharedPtr<Peer>`, null where it is `none`. -/
abbrev PeerPointers := Hashtable Address (Option Peer)

/-- `SharedPtr<Peer>& hp = peers[a]`, filled with a peer if it is null. -/
def fillPointer (peers : PeerPointers) (a : Address) (p : Peer) : PeerPointers :=
  peers.modify a fun hp => hp.or (some p)

/-! ### Upstreams -/

/-- The addresses that `_memoizeUpstreams` has gathered so far, and the pointers. -/
structure Gathering where
  addresses : List Address
  peers : PeerPointers

/-- One turn of the loops of `_memoizeUpstreams`, as far as it is about peers. -/
def gatherRoot (me : Identity) (g : Gathering) (root : Root) : Gathering :=
  if root.identity = me then g
  else if g.addresses.contains root.identity.address then g
  else ⟨g.addresses ++ [root.identity.address],
    fillPointer g.peers root.identity.address ⟨root.identity⟩⟩

/-- What `Topology::_memoizeUpstreams` does to the pointers. -/
def gatherPeers (t : Topology) (peers : PeerPointers) : PeerPointers :=
  (t.moons.foldl (fun g m => m.roots.foldl (gatherRoot t.identity) g)
    (t.planet.roots.foldl (gatherRoot t.identity) ⟨[], peers⟩)).peers

/-! ### Operations -/

/-- A topology with the pointers that its peers are behind. -/
structure PeerTable where
  topology : Topology
  peers : PeerPointers

/-- What must not happen. -/
inductive PeerFault
  | nullDereference
deriving DecidableEq

namespace PeerTable

variable (ecc : Ecc)

/-- `Topology::addWorld` -/
def addWorld (s : PeerTable) (newWorld : World) (alwaysAcceptNew : Bool) : PeerTable :=
  match s.topology.addWorld ecc newWorld alwaysAcceptNew with
  | .ok o => ⟨o.topology, if o.returned then gatherPeers o.topology s.peers else s.peers⟩
  | .error _ => s

/-- `Topology::Topology`, with what is stored for the planet. -/
def new (identity : Identity) (stored : Bytes) : PeerTable :=
  let t : Topology := ⟨identity, .null, [], [], [], false, .empty 64 Hashtable.buckets_pos⟩
  let s : PeerTable := ⟨t, .empty 64 Hashtable.buckets_pos⟩
  match Topology.loadWorld stored with
  | none => s
  | some cachedPlanet => s.addWorld ecc cachedPlanet false

/-- `Topology::setPlanetEndpoints` -/
def setPlanetEndpoints (s : PeerTable) (eps : List InetAddress) : PeerTable :=
  let t := (s.topology.setPlanetEndpoints eps).topology
  if s.topology.planet.isSet then
    match Topology.refresh s.topology.planet eps with
    | none => s
    | some (a, _) => ⟨t, gatherPeers t (s.peers.erase a)⟩
  else s

/-- `Topology::setMoonEndpoints` -/
def setMoonEndpoints (s : PeerTable) (worldId : UInt64) (eps : List InetAddress) : PeerTable :=
  let t := (s.topology.setMoonEndpoints worldId eps).topology
  match s.topology.moons.find? fun m => m.id == worldId with
  | none => s
  | some m =>
      match Topology.refresh m eps with
      | none => s
      | some (a, _) => ⟨t, gatherPeers t (s.peers.erase a)⟩

/-- `Topology::addMoon`, with what is stored for the moon. -/
def addMoon (s : PeerTable) (id : UInt64) (seed : Address) (stored : Bytes) : PeerTable :=
  match Topology.loadMoon id stored with
  | none => { s with topology := s.topology.addSeed id seed }
  | some w =>
      match s.topology.addWorld ecc w true with
      | .ok o => ⟨o.topology, if o.returned then gatherPeers o.topology s.peers else s.peers⟩
      | .error _ => { s with topology := s.topology.addSeed id seed }

/-- `Topology::removeMoon` -/
def removeMoon (s : PeerTable) (id : UInt64) : PeerTable :=
  let t := (s.topology.removeMoon id).1
  ⟨t, gatherPeers t s.peers⟩

/-- `Topology::addPeer`, with what it returns. -/
def addPeer (s : PeerTable) (peer : Peer) : Option Peer × PeerTable :=
  let peers := fillPointer s.peers peer.identity.address peer
  ((peers.get peer.identity.address).join, ⟨(s.topology.addPeer peer).2, peers⟩)

/-- `Topology::getPeer`, with what is stored for the peer, and what it returns. -/
def getPeer (s : PeerTable) (zta : Address) (stored : Bytes) : Option Peer × PeerTable :=
  let t := (s.topology.getPeer zta stored).2
  if zta = s.topology.identity.address then
    (none, s)
  else
    match s.peers.get zta with
    | some ap => (ap, s)
    | none =>
        if stored = [] then
          (none, s)
        else
          -- `SharedPtr<Peer>& ap = _peers[zta]`, null until the cache is read
          let peers := s.peers.modify zta id
          match Peer.deserializeFromCache stored with
          | none => (none, ⟨t, peers.erase zta⟩)
          | some ap => (none, ⟨t, peers.set zta (some ap)⟩)

/-- `Topology::doPeriodicTasks`, as far as it is about peers.  Every pointer is followed. -/
def doPeriodicTasks (s : PeerTable) (isAlive : Address → Bool) : PeerTable × List PeerFault :=
  (⟨(s.topology.doPeriodicTasks isAlive).1,
      s.peers.retain fun a _ => s.topology.keeps isAlive a⟩,
    (s.peers.entries.filter fun e => e.2 = none).map fun _ => .nullDereference)

end PeerTable

/-- The table taking calls. -/
def peerTable (ecc : Ecc) : Machine PeerTable TopologyEvent PeerFault where
  step s
    | .addWorld newWorld alwaysAcceptNew => (s.addWorld ecc newWorld alwaysAcceptNew, [])
    | .setPlanetEndpoints eps => (s.setPlanetEndpoints eps, [])
    | .setMoonEndpoints worldId eps => (s.setMoonEndpoints worldId eps, [])
    | .addMoon id seed stored => (s.addMoon ecc id seed stored, [])
    | .removeMoon id => (s.removeMoon id, [])
    | .addPeer peer => ((s.addPeer peer).2, [])
    | .getPeer zta stored => ((s.getPeer zta stored).2, [])
    | .doPeriodicTasks isAlive => s.doPeriodicTasks isAlive

namespace PeerTable

variable {ecc : Ecc} {s : PeerTable} {t : Topology}

/-! ### Pointers for peers -/

/-- Behind the pointers are the peers, and no pointer is null. -/
def Represents (ps : PeerPointers) (peers : Hashtable Address Peer) : Prop :=
  ∀ a, ps.get a = (peers.get a).map some

theorem Represents.fill {ps : PeerPointers} {peers : Hashtable Address Peer}
    (h : Represents ps peers) (a : Address) (p : Peer) :
    Represents (fillPointer ps a p) (fillPeer peers a p) := by
  intro k
  unfold fillPointer
  rw [Hashtable.get_modify, Topology.get_fillPeer, h a]
  by_cases hk : k = a
  · rw [if_pos hk, if_pos hk]
    rcases peers.get a with - | q
    · rfl
    · rfl
  · rw [if_neg hk, if_neg hk]
    exact h k

theorem Represents.erase {ps : PeerPointers} {peers : Hashtable Address Peer}
    (h : Represents ps peers) (a : Address) : Represents (ps.erase a) (peers.erase a) := by
  intro k
  rw [Hashtable.get_erase, Hashtable.get_erase]
  by_cases hk : k = a
  · rw [if_pos hk, if_pos hk]
    rfl
  · rw [if_neg hk, if_neg hk]
    exact h k

theorem represents_foldl (me : Identity) (roots : List Root) {g : Gathering} {u : Upstreams}
    (haddresses : g.addresses = u.addresses) (h : Represents g.peers u.peers) :
    Represents (roots.foldl (gatherRoot me) g).peers (roots.foldl (memoizeRoot me) u).peers := by
  induction roots generalizing g u with
  | nil => exact h
  | cons r roots ih =>
      rw [List.foldl_cons, List.foldl_cons]
      unfold gatherRoot memoizeRoot
      rw [haddresses]
      by_cases hme : r.identity = me
      · rw [if_pos hme, if_pos hme]
        exact ih haddresses h
      rw [if_neg hme, if_neg hme]
      by_cases hmem : r.identity.address ∈ u.addresses
      · rw [if_pos hmem, if_pos (List.contains_iff_mem.mpr hmem)]
        exact ih haddresses h
      · rw [if_neg hmem, if_neg fun hcontains => hmem (List.contains_iff_mem.mp hcontains)]
        exact ih rfl (h.fill _ _)

/-- Gathering upstreams keeps them alike. -/
theorem Represents.gather {ps : PeerPointers} (h : Represents ps t.peers) :
    Represents (gatherPeers t ps) t.gatherUpstreams.peers := by
  unfold gatherPeers
  rw [Topology.gatherUpstreams_eq, ← List.foldl_flatMap, ← List.foldl_append]
  exact represents_foldl t.identity t.roots rfl h

/-! ### Simulation -/

/-- The pointers of a state represent the peers of its topology. -/
def Alike (s : PeerTable) : Prop := Represents s.peers s.topology.peers

theorem Alike.added {o : Outcome} {newWorld : World} {alwaysAcceptNew : Bool} (h : Alike s)
    (ho : s.topology.addWorld ecc newWorld alwaysAcceptNew = .ok o) :
    Represents (if o.returned then gatherPeers o.topology s.peers else s.peers)
      o.topology.peers := by
  rcases Topology.addWorld_cases ho with rfl | ⟨t₁, type, haccepts, rfl⟩
  · exact h
  · have hpeers : t₁.peers = s.topology.peers := by
      rcases haccepts with - | - | -
      · rfl
      · rfl
      · rfl
    have hsame : Represents s.peers t₁.peers := by
      rw [hpeers]
      exact h
    exact hsame.gather

theorem Alike.addWorld (h : Alike s) (newWorld : World) (alwaysAcceptNew : Bool) :
    Alike (s.addWorld ecc newWorld alwaysAcceptNew) := by
  unfold PeerTable.addWorld
  rcases ho : s.topology.addWorld ecc newWorld alwaysAcceptNew with e | o
  · exact h
  · exact h.added ho

theorem alike_new (identity : Identity) (stored : Bytes) : Alike (new ecc identity stored) := by
  have hempty : ∀ t : Topology, t.peers = .empty 64 Hashtable.buckets_pos →
      Alike ⟨t, .empty 64 Hashtable.buckets_pos⟩ := by
    intro t ht k
    show Hashtable.get _ k = (t.peers.get k).map some
    rw [ht, Hashtable.get_empty, Hashtable.get_empty]
    rfl
  unfold new
  rcases Topology.loadWorld stored with - | cachedPlanet
  · exact hempty _ rfl
  · exact (hempty _ rfl).addWorld cachedPlanet false

theorem Alike.getPeer (h : Alike s) (zta : Address) (stored : Bytes) :
    Alike (s.getPeer zta stored).2 := by
  unfold PeerTable.getPeer Topology.getPeer
  by_cases hme : zta = s.topology.identity.address
  · rw [if_pos hme]
    exact h
  rw [if_neg hme, if_neg hme, h zta]
  rcases hget : s.topology.peers.get zta with - | ap
  · by_cases hstored : stored = []
    · simp only [hstored, if_true, Option.map_none]
      exact h
    simp only [if_neg hstored, Option.map_none]
    rcases Peer.deserializeFromCache stored with - | ap
    · -- the null pointer is taken out again
      intro k
      show ((s.peers.modify zta id).erase zta).get k = ((s.topology.peers.erase zta).get k).map some
      rw [Hashtable.get_erase, Hashtable.get_modify, Hashtable.get_erase]
      by_cases hk : k = zta
      · rw [if_pos hk, if_pos hk]
        rfl
      · rw [if_neg hk, if_neg hk, if_neg hk]
        exact h k
    · intro k
      show ((s.peers.modify zta id).set zta (some ap)).get k =
        ((s.topology.peers.set zta ap).get k).map some
      rw [Hashtable.get_set, Hashtable.get_modify, Hashtable.get_set]
      by_cases hk : k = zta
      · rw [if_pos hk, if_pos hk]
        rfl
      · rw [if_neg hk, if_neg hk, if_neg hk]
        exact h k
  · exact h

theorem Alike.doPeriodicTasks (h : Alike s) (isAlive : Address → Bool) :
    Alike (s.doPeriodicTasks isAlive).1 := by
  intro k
  show (s.peers.retain _).get k = ((s.topology.peers.retain _).get k).map some
  rw [Hashtable.get_retain, Hashtable.get_retain, h k]
  rcases s.topology.peers.get k with - | p
  · rfl
  · by_cases hk : s.topology.keeps isAlive k = true
    · simp only [hk]
      rfl
    · simp only [Bool.not_eq_true _ |>.mp hk]
      rfl

theorem Alike.refresh {ps : PeerPointers} {type : StateObject} {w : World} {a : Address}
    (h : Represents ps t.peers) :
    Represents (gatherPeers (Topology.refreshed type w a t).topology (ps.erase a))
      (Topology.refreshed type w a t).topology.peers :=
  Represents.gather (t := { t with peers := t.peers.erase a }) (h.erase a)

/-- **The step lemma**: the topology takes the same step, its peers stay behind the pointers, and no
pointer that is followed is null. -/
theorem represents_step (ecc : Ecc) (h : Alike s) (e : TopologyEvent) :
    ((peerTable ecc).step s e).1.topology =
        ((ZGalaxy.topology ecc).step s.topology e).1 ∧
      Alike ((peerTable ecc).step s e).1 ∧ ((peerTable ecc).step s e).2 = [] := by
  rcases e with ⟨w, new⟩ | eps | ⟨worldId, eps⟩ | ⟨id, seed, stored⟩ | id | peer | ⟨zta,
    stored⟩ | isAlive
  · -- a world is added: both sides depend on it alone
    refine ⟨?_, h.addWorld w new, rfl⟩
    unfold peerTable ZGalaxy.topology PeerTable.addWorld
    dsimp only
    rcases s.topology.addWorld ecc w new with e | o
    · rfl
    · rfl
  · unfold peerTable ZGalaxy.topology PeerTable.setPlanetEndpoints Topology.setPlanetEndpoints
    dsimp only
    split_ifs
    · rcases Topology.refresh s.topology.planet eps with - | ⟨a, planet⟩
      · exact ⟨rfl, h, rfl⟩
      · exact ⟨rfl, Alike.refresh h, rfl⟩
    · exact ⟨rfl, h, rfl⟩
  · unfold peerTable ZGalaxy.topology PeerTable.setMoonEndpoints Topology.setMoonEndpoints
    dsimp only
    rcases hfind : s.topology.moons.find? fun m => m.id == worldId with - | m
    · rw [hfind]
      exact ⟨rfl, h, rfl⟩
    · rw [hfind]
      dsimp only
      rcases Topology.refresh m eps with - | ⟨a, moon⟩
      · exact ⟨rfl, h, rfl⟩
      · exact ⟨rfl, Alike.refresh h, rfl⟩
  · -- a moon is added or waited for: the seeds are not peers
    have hseed : (s.topology.addSeed id seed).peers = s.topology.peers := by
      unfold Topology.addSeed
      split_ifs
      · rfl
      · rfl
    have hkept : Alike { s with topology := s.topology.addSeed id seed } := by
      show Represents s.peers _
      rw [hseed]
      exact h
    unfold peerTable ZGalaxy.topology PeerTable.addMoon Topology.addMoon
    dsimp only
    rcases Topology.loadMoon id stored with - | w
    · exact ⟨rfl, hkept, rfl⟩
    · dsimp only
      rcases ho : s.topology.addWorld ecc w true with e | o
      · exact ⟨rfl, hkept, rfl⟩
      · exact ⟨rfl, h.added ho, rfl⟩
  · exact ⟨rfl, Represents.gather (t := { s.topology with moons := _, moonSeeds := _ }) h, rfl⟩
  · exact ⟨rfl, h.fill _ _, rfl⟩
  · -- a peer is looked up, and read from what was stored if it is not there
    refine ⟨?_, h.getPeer zta stored, rfl⟩
    show (s.getPeer zta stored).2.topology = (s.topology.getPeer zta stored).2
    unfold PeerTable.getPeer Topology.getPeer
    dsimp only
    rw [h zta]
    split_ifs with hme
    · rfl
    · rcases s.topology.peers.get zta with - | ap
      · rfl
      · rfl
    · rcases s.topology.peers.get zta with - | ap
      · dsimp only [Option.map]
        rcases Peer.deserializeFromCache stored with - | ap
        · rfl
        · rfl
      · rfl
  · -- the loop follows the pointers, and none of them is null
    refine ⟨rfl, h.doPeriodicTasks isAlive, ?_⟩
    show ((s.peers.entries.filter _).map _) = []
    rw [List.map_eq_nil_iff, List.filter_eq_nil_iff]
    rintro ⟨a, hp⟩ he hnull
    have hget := s.peers.mem_entries_iff.mp he
    rw [h a] at hget
    obtain ⟨p, _, rfl⟩ := Option.map_eq_some_iff.mp hget
    exact absurd (of_decide_eq_true hnull) (Option.some_ne_none p)

/-! ### Filing -/

/-- Every peer is under the address of its identity. -/
def Filed (peers : Hashtable Address Peer) : Prop :=
  ∀ a p, peers.get a = some p → p.identity.address = a

theorem Filed.fill {peers : Hashtable Address Peer} (h : Filed peers) (p : Peer) :
    Filed (fillPeer peers p.identity.address p) := by
  intro k q hq
  rw [Topology.get_fillPeer] at hq
  split_ifs at hq with hk
  · rcases hget : peers.get p.identity.address with - | r
    · rw [hget] at hq
      obtain rfl := Option.some.inj hq
      exact hk.symm
    · rw [hget] at hq
      obtain rfl := Option.some.inj hq
      rw [hk]
      exact h _ _ hget
  · exact h k q hq

theorem Filed.erase {peers : Hashtable Address Peer} (h : Filed peers) (a : Address) :
    Filed (peers.erase a) := by
  intro k q hq
  rw [Hashtable.get_erase] at hq
  split_ifs at hq
  exact h k q hq

theorem filed_foldl (me : Identity) (roots : List Root) {u : Upstreams} (h : Filed u.peers) :
    Filed (roots.foldl (memoizeRoot me) u).peers := by
  induction roots generalizing u with
  | nil => exact h
  | cons r roots ih =>
      rw [List.foldl_cons]
      refine ih ?_
      unfold memoizeRoot
      split_ifs
      · exact h
      · exact h
      · exact h.fill ⟨r.identity⟩

theorem Filed.memoize (h : Filed t.peers) : Filed t.memoizeUpstreams.peers := by
  show Filed t.gatherUpstreams.peers
  rw [Topology.gatherUpstreams_eq]
  exact filed_foldl _ _ h

theorem Filed.added {o : Outcome} {w : World} {alwaysAcceptNew : Bool} (h : Filed t.peers)
    (ho : t.addWorld ecc w alwaysAcceptNew = .ok o) : Filed o.topology.peers := by
  rcases Topology.addWorld_cases ho with rfl | ⟨t₁, type, haccepts, rfl⟩
  · exact h
  · refine Filed.memoize ?_
    rcases haccepts with - | - | -
    · exact h
    · exact h
    · exact h

theorem Filed.addSeed (h : Filed t.peers) (id : UInt64) (seed : Address) :
    Filed (t.addSeed id seed).peers := by
  unfold Topology.addSeed
  split_ifs
  · exact h
  · exact h

/-- The call does not find a peer in the cache for an address that has none. -/
def Passes (t : Topology) (zta : Address) (stored : Bytes) : Prop :=
  t.peers.get zta = none → Peer.deserializeFromCache stored = none

theorem Filed.getPeer (h : Filed t.peers) {zta : Address} {stored : Bytes}
    (hpass : zta ≠ t.identity.address → Passes t zta stored) :
    Filed (t.getPeer zta stored).2.peers := by
  unfold Topology.getPeer
  by_cases hme : zta = t.identity.address
  · rw [if_pos hme]
    exact h
  · rw [if_neg hme]
    rcases hget : t.peers.get zta with - | ap
    · dsimp only
      split_ifs
      · exact h
      · rw [hpass hme hget]
        exact h.erase zta
    · exact h

/-- **A step files peers where they belong**, if it does not read one from the cache. -/
theorem Filed.step (ecc : Ecc) (h : Filed t.peers) {e : TopologyEvent}
    (hpass : ∀ zta stored, e = .getPeer zta stored → zta ≠ t.identity.address →
      Passes t zta stored) :
    Filed ((ZGalaxy.topology ecc).step t e).1.peers := by
  rcases e with ⟨w, new⟩ | eps | ⟨worldId, eps⟩ | ⟨id, seed, stored⟩ | id | peer | ⟨zta,
    stored⟩ | isAlive
  · unfold ZGalaxy.topology
    dsimp only
    rcases ho : t.addWorld ecc w new with e | o
    · exact h
    · exact h.added ho
  · unfold ZGalaxy.topology Topology.setPlanetEndpoints
    dsimp only
    split_ifs
    · rcases Topology.refresh t.planet eps with - | ⟨a, planet⟩
      · exact h
      · exact Filed.memoize (t := { t with planet := planet, peers := _ }) (h.erase a)
    · exact h
  · unfold ZGalaxy.topology Topology.setMoonEndpoints
    dsimp only
    rcases hfind : t.moons.find? fun m => m.id == worldId with - | m
    · rw [hfind]
      exact h
    · rw [hfind]
      dsimp only
      rcases Topology.refresh m eps with - | ⟨a, moon⟩
      · exact h
      · exact Filed.memoize (t := { t with moons := _, peers := _ }) (h.erase a)
  · unfold ZGalaxy.topology Topology.addMoon
    dsimp only
    rcases Topology.loadMoon id stored with - | w
    · exact h.addSeed id seed
    · dsimp only
      rcases ho : t.addWorld ecc w true with e | o
      · exact h.addSeed id seed
      · exact h.added ho
  · exact Filed.memoize (t := { t with moons := _, moonSeeds := _ }) h
  · exact h.fill peer
  · exact h.getPeer (hpass zta stored rfl)
  · intro a p hp
    have hget : (t.peers.retain fun a _ => t.keeps isAlive a).get a = some p := hp
    rw [Hashtable.get_retain] at hget
    exact h a p (Option.filter_eq_some_iff.mp hget).1

/-! ### Coherence -/

/-- Every entry has a peer, under the address of its identity. -/
def Coherent (s : PeerTable) : Prop :=
  ∀ a hp, s.peers.get a = some hp → ∃ p, hp = some p ∧ p.identity.address = a

/-- What a step leaves is coherent, it follows no null pointer, and what `getPeer` returns is what
the table holds then. -/
structure StepCoherent (ecc : Ecc) (s : PeerTable) (e : TopologyEvent) : Prop where
  entries : Coherent ((peerTable ecc).step s e).1
  followed : ((peerTable ecc).step s e).2 = []
  returned : ∀ zta stored, e = .getPeer zta stored →
    (s.getPeer zta stored).1 = ((s.getPeer zta stored).2.peers.get zta).join

/-- If the step looks a peer up, it is not one that only the cache has, nor the node's own address
where a peer is in the table for it. -/
def LooksUp (s : PeerTable) (e : TopologyEvent) : Prop :=
  ∀ zta stored, e = .getPeer zta stored →
    (zta = s.topology.identity.address → s.peers.get zta = none) ∧
    (zta ≠ s.topology.identity.address → s.peers.get zta = none →
      Peer.deserializeFromCache stored = none)

theorem Alike.coherent_iff_filed (h : Alike s) : Coherent s ↔ Filed s.topology.peers := by
  constructor
  · intro hcoherent a p hp
    obtain ⟨q, hq, haddress⟩ := hcoherent a (some p) (by rw [h a, hp]; rfl)
    rwa [Option.some.inj hq]
  · intro hfiled a hp hget
    rw [h a] at hget
    obtain ⟨p, hp', rfl⟩ := Option.map_eq_some_iff.mp hget
    exact ⟨p, rfl, hfiled a p hp'⟩

theorem deserializeFromCache_nil : Peer.deserializeFromCache [] = none := rfl

/-- What `getPeer` returns is what is held exactly when it looks up. -/
theorem Alike.returned_iff (h : Alike s) (zta : Address) (stored : Bytes) :
    (s.getPeer zta stored).1 = ((s.getPeer zta stored).2.peers.get zta).join ↔
      (zta = s.topology.identity.address → s.peers.get zta = none) ∧
      (zta ≠ s.topology.identity.address → s.peers.get zta = none →
        Peer.deserializeFromCache stored = none) := by
  unfold PeerTable.getPeer
  dsimp only
  by_cases hme : zta = s.topology.identity.address
  · rw [if_pos hme, h zta]
    rcases s.topology.peers.get zta with - | p
    · exact iff_of_true rfl ⟨fun _ => rfl, fun hne => absurd hme hne⟩
    · exact iff_of_false (Option.some_ne_none p).symm fun hc => Option.some_ne_none _ (hc.1 hme)
  · rw [if_neg hme]
    rcases hget : s.peers.get zta with - | ap
    · dsimp only
      by_cases hstored : stored = []
      · rw [if_pos hstored, hstored, hget]
        exact iff_of_true rfl ⟨fun heq => absurd heq hme, fun _ _ => deserializeFromCache_nil⟩
      · rw [if_neg hstored]
        rcases Peer.deserializeFromCache stored with - | p
        · refine iff_of_true ?_ ⟨fun heq => absurd heq hme, fun _ _ => rfl⟩
          show none = (((s.peers.modify zta id).erase zta).get zta).join
          rw [Hashtable.get_erase, if_pos rfl]
          rfl
        · -- the peer is in the table, and null was returned
          refine iff_of_false ?_ fun hc => Option.some_ne_none p (hc.2 hme rfl)
          show ¬ none = (((s.peers.modify zta id).set zta (some p)).get zta).join
          rw [Hashtable.get_set, if_pos rfl]
          exact (Option.some_ne_none p).symm
    · refine iff_of_true ?_ ⟨fun heq => absurd heq hme, fun _ hnone =>
        absurd hnone (Option.some_ne_none ap)⟩
      show ap = (s.peers.get zta).join
      rw [hget]
      rfl

/-- **When a step is coherent.** -/
theorem stepCoherent_iff (ecc : Ecc) (h : Alike s) (hcoherent : Coherent s) (e : TopologyEvent) :
    StepCoherent ecc s e ↔ LooksUp s e := by
  obtain ⟨htopology, halike, hfollowed⟩ := represents_step ecc h e
  constructor
  · intro hstep zta stored he
    exact (h.returned_iff zta stored).mp (hstep.returned zta stored he)
  · intro hlooks
    refine ⟨halike.coherent_iff_filed.mpr ?_, hfollowed, fun zta stored he =>
      (h.returned_iff zta stored).mpr (hlooks zta stored he)⟩
    rw [htopology]
    refine (h.coherent_iff_filed.mp hcoherent).step ecc fun zta stored he hne hnone => ?_
    exact (hlooks zta stored he).2 hne (by rw [h zta, hnone]; rfl)

theorem guarded_coherent_iff (ecc : Ecc) (h : Alike s) (hcoherent : Coherent s)
    (es : List TopologyEvent) :
    (peerTable ecc).Guarded (StepCoherent ecc) s es ↔ (peerTable ecc).Guarded LooksUp s es := by
  induction es generalizing s with
  | nil => exact Iff.rfl
  | cons e es ih =>
      have hstep := stepCoherent_iff ecc h hcoherent e
      have halike := (represents_step ecc h e).2.1
      constructor
      · rintro ⟨he, hes⟩
        exact ⟨hstep.mp he, (ih halike he.entries).mp hes⟩
      · rintro ⟨he, hes⟩
        exact ⟨hstep.mpr he, (ih halike (hstep.mpr he).entries).mpr hes⟩

theorem filed_new (identity : Identity) (stored : Bytes) :
    Filed (new ecc identity stored).topology.peers := by
  have hempty : Filed (.empty 64 Hashtable.buckets_pos) := by
    intro a p hp
    rw [Hashtable.get_empty] at hp
    cases hp
  unfold new PeerTable.addWorld
  rcases Topology.loadWorld stored with - | cachedPlanet
  · exact hempty
  · dsimp only
    generalize ht : Topology.mk identity .null [] [] [] false
      (.empty 64 Hashtable.buckets_pos) = t
    have hpeers : Filed t.peers := by
      rw [← ht]
      exact hempty
    rcases ho : t.addWorld ecc cachedPlanet false with e | o
    · exact hpeers
    · exact hpeers.added ho

/-- **Exactly the runs that look peers up are coherent**: after each step every entry has a peer,
under its own address, no null pointer was followed, and `getPeer` returned what is held. -/
theorem coherent_iff (ecc : Ecc) (identity : Identity) (stored : Bytes)
    (es : List TopologyEvent) :
    (peerTable ecc).Guarded (StepCoherent ecc) (new ecc identity stored) es ↔
      (peerTable ecc).Guarded LooksUp (new ecc identity stored) es :=
  guarded_coherent_iff ecc (alike_new identity stored)
    ((alike_new identity stored).coherent_iff_filed.mpr (filed_new identity stored)) es

/-- A peer as it is cached: version 2, an identity with the address 2, no paths to try. -/
def cachedPeer : Bytes :=
  [2] ++ [0, 0, 0, 0, 2] ++ [0] ++ List.replicate 64 0 ++ [0] ++ List.replicate 10 0

theorem deserializeFromCache_cachedPeer :
    Peer.deserializeFromCache cachedPeer = some ⟨⟨2, List.replicate 64 0⟩⟩ := by
  decide +kernel

/-- A lookup that finds a peer in the cache returns null, and leaves the peer in the table. -/
theorem cached_peer_not_returned :
    ¬ ∀ (ecc : Ecc) (identity : Identity) (stored : Bytes) (es : List TopologyEvent),
      (peerTable ecc).Guarded (StepCoherent ecc) (new ecc identity stored) es := by
  intro h
  have hstep := (h ⟨fun _ _ _ => false, id⟩ ⟨1, []⟩ [] [.getPeer 2 cachedPeer]).1
  have halike : Alike (new ⟨fun _ _ _ => false, id⟩ ⟨1, []⟩ []) := alike_new ⟨1, []⟩ []
  obtain ⟨-, hcache⟩ := (halike.returned_iff 2 cachedPeer).mp (hstep.returned 2 cachedPeer rfl)
  have hnone := hcache (by decide) (Hashtable.get_empty _ _ _)
  rw [deserializeFromCache_cachedPeer] at hnone
  cases hnone

end PeerTable

end ZGalaxy
