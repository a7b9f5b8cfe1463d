/-
ZGalaxy/Bond.lean

A bond: the paths to one peer that are used together.

A bond has `maxPeerNetworkPaths` slots, and a path that the peer learned of is nominated to the
first free one (`nominatePathToBond`).  In the background the slots are looked at again and again
(`curateBond`): a path without a link, or one that was not eligible for too long, leaves its slot,
and what is said of the others follows.  Under a balance policy the paths that carry traffic are
numbered, and `realIdxMap` takes their numbers to slots.  It is written anew only if something asks
for it (`rebuilds`), and a path that leaves its slot does not.

Links are found by the name of the interface that a socket is bound to, in a table that all bonds
of one policy share, so that every call comes with its own `Surroundings`.  What is measured of a
path is floating point throughout: a call that estimates the quality of the paths is given what it
arrives at (`PathEstimate`).  The index `ZT_MAX_PEER_NETWORK_PATHS`, which stands for no slot, is
`none`.  The refractory period of a path and the counts of links are written and never read.
-/
import ZGalaxy.PeerPaths
import ZGalaxy.SortedMap
import ZGalaxy.World
import Mathlib.Data.List.FinRange

namespace ZGalaxy

open PeerPaths

/-! ### Constants -/

/-- `ZT_BOND_OPTIMIZE_INTERVAL`. -/
def bondOptimizeInterval : UInt64 := 15000

/-- `ZT_PEER_EXPIRED_PATH_TRIAL_PERIOD`. -/
def peerExpiredPathTrialPeriod : UInt64 := 600000

/-- `ZT_PEER_PATH_EXPIRATION`. -/
def bondPathExpiration : UInt64 := 243000

/-- `ZT_BondBondingPolicy`. -/
inductive BondPolicy
  | none
  | activeBackup
  | broadcast
  | balanceRR
  | balanceXOR
  | balanceAware
deriving DecidableEq

/-- One of the three policies that spread the traffic. -/
def BondPolicy.isBalance : BondPolicy → Bool
  | .balanceRR => true
  | .balanceXOR => true
  | .balanceAware => true
  | _ => false

theorem BondPolicy.ne_activeBackup {policy : BondPolicy} (h : policy.isBalance = true) :
    policy ≠ .activeBackup := by
  rintro rfl
  cases h

/-- The two policies that place the flows. -/
theorem BondPolicy.isBalance_of_flows {policy : BondPolicy}
    (h : policy = .balanceXOR ∨ policy = .balanceAware) : policy.isBalance = true := by
  rcases h with rfl | rfl
  · rfl
  · rfl

theorem BondPolicy.ne_balanceRR {policy : BondPolicy}
    (h : policy = .balanceXOR ∨ policy = .balanceAware) : policy ≠ .balanceRR := by
  rcases h with rfl | rfl
  · decide
  · decide

theorem BondPolicy.eq_of_ne_balanceRR {policy : BondPolicy} (h : policy.isBalance = true)
    (hrr : policy ≠ .balanceRR) : policy = .balanceXOR ∨ policy = .balanceAware := by
  rcases policy with - | - | - | - | - | -
  · cases h
  · cases h
  · cases h
  · exact absurd rfl hrr
  · exact Or.inl rfl
  · exact Or.inr rfl

/-- `ZT_BondLinkSelectMethod`. -/
inductive ReselectionPolicy
  | always
  | better
  | failure
  | optimize
deriving DecidableEq

/-- `ZT_BondLinkMode`. -/
inductive LinkMode
  | primary
  | spare
deriving DecidableEq

/-! ### Measured values -/

/-- A value of type `float`, a finite one in units of the smallest positive one. -/
inductive FloatValue
  | nan
  | infinite (negative : Bool)
  | finite (units : ℤ)
deriving DecidableEq

namespace FloatValue

/-- The comparison `<` of floating point, which is false for what is not a number. -/
def lt : FloatValue → FloatValue → Bool
  | nan, _ => false
  | _, nan => false
  | finite x, finite y => decide (x < y)
  | infinite negative, finite _ => negative
  | finite _, infinite negative => !negative
  | infinite negative, infinite negative' => negative && !negative'

/-- The comparison `<=` of floating point. -/
def le : FloatValue → FloatValue → Bool
  | nan, _ => false
  | _, nan => false
  | finite x, finite y => decide (x ≤ y)
  | infinite negative, finite _ => negative
  | finite _, infinite negative => !negative
  | infinite negative, infinite negative' => negative || !negative'

end FloatValue

/-! ### Links -/

/-- `Link`: an object, told apart from others by its address in memory. -/
structure BondLink where
  ptr : ℕ
  ifname : String
  ipvPref : UInt8
  mode : LinkMode
  failoverToLink : String
deriving DecidableEq

/-- What a call of a bond finds around it: the interfaces of the sockets, the links of the bond's
policy with those that the user defined, and when each path last received something. -/
structure Surroundings where
  ifname : BitVec 64 → String
  links : String → Option BondLink
  linkDefinitions : List String
  freshPtr : ℕ
  lastIn : Path → Int64

namespace Surroundings

/-- `Bond::getLinkBySocket`, without `createIfNeeded`. -/
def getLinkBySocket (s : Surroundings) (localSocket : BitVec 64) : Option BondLink :=
  s.links (s.ifname localSocket)

/-- `Bond::getLink`. -/
def getLink (s : Surroundings) (path : Path) : Option BondLink := s.getLinkBySocket path.localSocket

/-- The link that is made for an interface. -/
def newLink (s : Surroundings) (localSocket : BitVec 64) : BondLink :=
  ⟨s.freshPtr, s.ifname localSocket, 0, .primary, ""⟩

/-- What `Bond::getLinkBySocket` with `createIfNeeded` leaves. -/
def createLink (s : Surroundings) (localSocket : BitVec 64) : Surroundings :=
  match s.getLinkBySocket localSocket with
  | some _ => s
  | none =>
      { s with
        links := Function.update s.links (s.ifname localSocket) (some (s.newLink localSocket))
        freshPtr := s.freshPtr + 1 }

/-- `Bond::linkAllowed`. -/
def linkAllowed (s : Surroundings) : Option BondLink → Bool
  | none => false
  | some link => s.linkDefinitions.isEmpty || s.linkDefinitions.contains link.ifname

end Surroundings

/-! ### Nominated paths -/

/-- A slot of a bond. -/
abbrev PathSlot := Fin maxPeerNetworkPaths

/-- `Bond::NominatedPath`. -/
structure NominatedPath where
  lastQoSReceived : UInt64
  lastAliveToggle : UInt64
  alive : Bool
  eligible : Bool
  lastEligibility : UInt64
  whenNominated : UInt64
  ipvPref : UInt8
  mode : LinkMode
  onlyPathOnLink : Bool
  bonded : Bool
  negotiated : Bool
  shouldAvoid : Bool
  assignedFlowCount : UInt16
  relativeQuality : FloatValue
  relativeLinkCapacity : FloatValue
  failoverScore : UInt32
  p : Option Path

namespace NominatedPath

/-- `NominatedPath()`. -/
def init : NominatedPath where
  lastQoSReceived := 0
  lastAliveToggle := 0
  alive := false
  eligible := true
  lastEligibility := 0
  whenNominated := 0
  ipvPref := 0
  mode := .primary
  onlyPathOnLink := false
  bonded := false
  negotiated := false
  shouldAvoid := false
  assignedFlowCount := 0
  relativeQuality := .finite 0
  relativeLinkCapacity := .finite 0
  failoverScore := 0
  p := none

variable (np : NominatedPath)

/-- The address of the path in the slot. -/
def addr : InetAddress := np.p.elim .nil Path.address

/-- `NominatedPath::allowed`. -/
def allowed : Bool :=
  np.ipvPref == 0 ||
    (np.addr.isV4 && [4, 46, 64].contains np.ipvPref ||
      np.addr.isV6 && [6, 46, 64].contains np.ipvPref)

/-- `NominatedPath::isSpare`. -/
def isSpare : Bool := np.mode == .spare

/-- `NominatedPath::preferred`. -/
def preferred : Bool :=
  np.onlyPathOnLink || np.addr.isV4 && [4, 46].contains np.ipvPref ||
    np.addr.isV6 && [6, 64].contains np.ipvPref

/-- `NominatedPath::set`. -/
def set (now : UInt64) (path : Path) : NominatedPath :=
  { np with p := some path, whenNominated := now }

end NominatedPath

/-! ### Bonds -/

/-- `Bond::Flow`. -/
structure Flow where
  id : Int32
  lastActivity : Int64
  lastPathReassignment : Int64
  assignedPath : Option PathSlot
deriving DecidableEq

/-- What is decided about a bond before it starts. -/
structure BondSettings where
  policy : BondPolicy
  isLeaf : Bool
  upDelay : UInt32
  downDelay : UInt32
  failoverInterval : UInt64
  packetsPerLink : Int32
  abLinkSelectMethod : ReselectionPolicy
  userHasSpecifiedLinks : Bool
  userHasSpecifiedPrimaryLink : Bool
  userHasSpecifiedFailoverInstructions : Bool

/-- `Bond`. -/
structure Bond where
  settings : BondSettings
  paths : PathSlot → NominatedPath
  realIdxMap : PathSlot → Option PathSlot
  numBondedPaths : ℕ
  flows : List (Int16 × Flow)
  abPathIdx : Option PathSlot
  abFailoverQueue : List PathSlot
  rrIdx : UInt8
  rrPacketsSentOnCurrLink : UInt16
  lastFlowExpirationCheck : UInt64
  lastActiveBackupPathChange : UInt64

/-- All slots, in the order in which every loop goes through them. -/
def pathSlots : List PathSlot := List.finRange maxPeerNetworkPaths

/-- The slot with index 0. -/
def firstSlot : PathSlot := ⟨0, by decide⟩

/-- A bond as its constructors leave it.  `_realIdxMap` is initialized with one value, so that its
other places are 0. -/
def Bond.init (settings : BondSettings) : Bond where
  settings := settings
  paths _ := NominatedPath.init
  realIdxMap j := if j.val = 0 then none else some firstSlot
  numBondedPaths := 0
  flows := []
  abPathIdx := none
  abFailoverQueue := []
  rrIdx := 0
  rrPacketsSentOnCurrLink := 0
  lastFlowExpirationCheck := 0
  lastActiveBackupPathChange := 0

/-! ### Looking at one path -/

namespace NominatedPath

variable (s : Surroundings) (settings : BondSettings) (now : Int64) (np : NominatedPath)

/-- The path is still in its trial period. -/
def inTrial : Bool := decide (now.toUInt64 - np.whenNominated < bondOptimizeInterval)

/-- The path was not eligible for too long, and is no longer in its trial period. -/
def expired : Bool :=
  decide (peerExpiredPathTrialPeriod < now.toUInt64 - np.lastEligibility) && !np.inTrial now

/-- The path leaves its slot: its link is no longer valid, or it has expired. -/
def leaves : Bool :=
  match np.p with
  | none => false
  | some path => (s.getLink path).isNone || np.expired now

/-- The path received something lately. -/
def currAlive (path : Path) : Bool :=
  if settings.isLeaf then decide ((now - s.lastIn path).toUInt64 < settings.failoverInterval)
  else decide (now - s.lastIn path < bondPathExpiration.toInt64)

/-- Simple RX age. -/
def acceptableAge (path : Path) : Bool :=
  if settings.isLeaf then
    decide ((now - s.lastIn path).toUInt64 <
      settings.failoverInterval + settings.downDelay.toUInt64)
  else currAlive s settings now path

/-- Whether we have waited long enough since the link last came online. -/
def satisfiedUpDelay : Bool :=
  decide (settings.upDelay.toUInt64 ≤ now.toUInt64 - np.lastAliveToggle)

/-- How long since the last QoS was received.  Active backup works without. -/
def acceptableQoSAge : Bool :=
  settings.policy == .activeBackup || (np.lastQoSReceived == 0 && np.inTrial now ||
    decide (now.toUInt64 - np.lastQoSReceived < peerExpiredPathTrialPeriod))

/-- Whether the path may be used from now on. -/
def currEligibility (path : Path) : Bool :=
  np.allowed && (acceptableAge s settings now path && np.satisfiedUpDelay settings now &&
    np.acceptableQoSAge settings now || np.inTrial now)

/-- What is asked of the bond by a path that stays in its slot: it becomes eligible, or no longer is
and was bonded. -/
def asksForRebuild (path : Path) : Bool :=
  if np.currEligibility s settings now path then !np.eligible else np.eligible && np.bonded

/-- The path that stays in its slot. -/
def updated (path : Path) : NominatedPath :=
  let eligible := np.currEligibility s settings now path
  let avoided := !eligible && np.eligible && np.bonded
  { np with
    alive := currAlive s settings now path
    lastEligibility := if eligible then now.toUInt64 else np.lastEligibility
    eligible := eligible
    shouldAvoid := avoided || np.shouldAvoid
    bonded := !avoided && np.bonded }

/-- One turn of the first loop of `Bond::curateBond`: the slot, and whether it asks for a
rebuild. -/
def curate : NominatedPath × Bool :=
  match np.p with
  | none => (np, false)
  | some path =>
      if np.leaves s now then (init, false)
      else (np.updated s settings now path, np.asksForRebuild s settings now path)

end NominatedPath

/-! ### Rebuilding the bond -/

/-- What the slots hold. -/
abbrev Slots := PathSlot → NominatedPath

namespace Slots

variable (s : Surroundings) (paths : Slots)

/-- A path that is bonded and alive. -/
def foundUsablePrimaryPath : Bool :=
  pathSlots.any fun i => (paths i).p.isSome && (paths i).bonded && (paths i).alive

/-- The order of the links, which is that of their addresses. -/
def linkLt (link link' : BondLink) : Bool := decide (link.ptr < link'.ptr)

/-- One turn of the loop that builds `linkMap`. -/
def addToLink (linkMap : List (BondLink × List PathSlot)) (i : PathSlot) :
    List (BondLink × List PathSlot) :=
  match (paths i).p.bind s.getLink with
  | none => linkMap
  | some link => SortedMap.modify linkLt [] link (fun slots => slots ++ [i]) linkMap

/-- `linkMap`: the slots of every link. -/
def linkMap : List (BondLink × List PathSlot) := pathSlots.foldl (addToLink s paths) []

/-- An eligible path in a slot. -/
def usable (i : PathSlot) : Bool := (paths i).p.isSome && (paths i).eligible

/-- The spare paths of a link. -/
def spares (slots : List PathSlot) : List PathSlot :=
  slots.filter fun i => usable paths i && (paths i).allowed && (paths i).isSpare

/-- The paths of a link that are no spares. -/
def regulars (slots : List PathSlot) : List PathSlot :=
  slots.filter fun i => usable paths i && (paths i).allowed && !(paths i).isSpare

/-- The paths of a link that the user prefers. -/
def preferredOnes (slots : List PathSlot) : List PathSlot :=
  (regulars paths slots).filter fun i => (paths i).preferred

/-- What is settled for if there are none: paths of another address type. -/
def otherOnes (slots : List PathSlot) : List PathSlot :=
  slots.filter fun i => usable paths i && !(paths i).isSpare

/-- The paths of a link that are added to the bond as its address preference says. -/
def byPreference (link : BondLink) (slots : List PathSlot) : List PathSlot :=
  if [0, 4, 6].contains link.ipvPref then regulars paths slots
  else if [46, 64].contains link.ipvPref then
    if (preferredOnes paths slots).isEmpty then otherOnes paths slots
    else preferredOnes paths slots
  else []

/-- The paths of a link that are added to the bond, the spares first if they are needed. -/
def ofLink (needSpares : Bool) (e : BondLink × List PathSlot) : List PathSlot :=
  (if needSpares then spares paths e.2 else []) ++ byPreference paths e.1 e.2

/-- The slots that are added to the bond, in the order of their numbers. -/
def toBond (needSpares : Bool) : List PathSlot :=
  (linkMap s paths).flatMap (ofLink paths needSpares)

end Slots

namespace NominatedPath

/-- The path is part of the bond or not. -/
def setBonded (np : NominatedPath) (bonded : Bool) : NominatedPath := { np with bonded := bonded }

end NominatedPath

namespace Bond

variable (s : Surroundings) (now : Int64) (b : Bond)

/-- The slots after the first loop of `Bond::curateBond`. -/
def curatedPaths : Slots := fun i => ((b.paths i).curate s b.settings now).1

/-- A slot asks for a rebuild. -/
def someAsks : Bool := pathSlots.any fun i => ((b.paths i).curate s b.settings now).2

/-- The indices are written anew: this is asked for, or there is no bonded path that is alive, or
none at all. -/
def rebuilds (rebuildBond : Bool) : Bool :=
  rebuildBond || b.someAsks s now || !(b.curatedPaths s now).foundUsablePrimaryPath ||
    b.numBondedPaths == 0

/-- The numbers of the paths are written anew: the first ones are those of `slots`. -/
def rebuilt (paths : Slots) (slots : List PathSlot) : Bond :=
  { b with
    paths := fun i => (paths i).setBonded (slots.contains i)
    realIdxMap := fun j => slots[j.val]?
    numBondedPaths := slots.length }

/-- The striping begins anew, since the current index might no longer be valid. -/
def resetRR : Bond :=
  { b with
    rrPacketsSentOnCurrLink := b.settings.packetsPerLink.toUInt32.toUInt16
    rrIdx := 0 }

/-- `Bond::curateBond`. -/
def curateBond (rebuildBond : Bool) : Bond :=
  let paths := b.curatedPaths s now
  if b.settings.policy.isBalance then
    if b.rebuilds s now rebuildBond then
      let b' := b.rebuilt paths (paths.toBond s !paths.foundUsablePrimaryPath)
      if b.settings.policy = .balanceRR then b'.resetRR else b'
    else { b with paths := paths }
  else if b.settings.policy = .activeBackup then
    { b with
      paths := paths
      numBondedPaths := pathSlots.countP fun i => (paths i).p.isSome && (paths i).bonded }
  else { b with paths := paths }

end Bond

/-! ### Nominating a path -/

/-- What the estimation of the quality arrives at for one path. -/
structure PathEstimate where
  relativeQuality : Option FloatValue
  relativeLinkCapacity : Option FloatValue
  exceedsLimits : Bool

namespace NominatedPath

/-- What `Bond::estimatePathQuality` does to a slot. -/
def estimate (e : PathEstimate) (np : NominatedPath) : NominatedPath :=
  let known := np.p.isSome && np.allowed
  { np with
    relativeQuality :=
      if np.p.isSome && np.bonded then e.relativeQuality.getD np.relativeQuality
      else np.relativeQuality
    relativeLinkCapacity :=
      if known then e.relativeLinkCapacity.getD np.relativeLinkCapacity
      else np.relativeLinkCapacity
    shouldAvoid := if known then !np.shouldAvoid && e.exceedsLimits else np.shouldAvoid }

/-- There is another path on the link. -/
def shareLink (np : NominatedPath) : NominatedPath := { np with onlyPathOnLink := false }

/-- The user's preferences for the link, and whether there is another path on it. -/
def inherit (link : BondLink) (onlyPathOnLink : Bool) (np : NominatedPath) : NominatedPath :=
  { np with ipvPref := link.ipvPref, mode := link.mode, onlyPathOnLink := onlyPathOnLink }

end NominatedPath

namespace Bond

variable (s : Surroundings) (now : Int64) (b : Bond)

/-- `Bond::getNominatedPathIdx`. -/
def getNominatedPathIdx (path : Path) : Option PathSlot :=
  pathSlots.find? fun i => (b.paths i).p == some path

/-- The first free slot. -/
def freeSlot : Option PathSlot := pathSlots.find? fun i => (b.paths i).p.isNone

/-- `Bond::estimatePathQuality`, with what it measures. -/
def estimatePathQuality (estimates : PathSlot → PathEstimate) : Bond :=
  { b with paths := fun i => (b.paths i).estimate (estimates i) }

/-- The links of the sockets of all other paths, which are made where there are none. -/
def createLinks (path : Path) : Surroundings :=
  pathSlots.foldl
    (fun s i =>
      match (b.paths i).p with
      | none => s
      | some other => if other = path then s else s.createLink other.localSocket) s

/-- Another path is on the link. -/
def sharesLink (link : BondLink) (path : Path) (np : NominatedPath) : Bool :=
  match np.p with
  | none => false
  | some other => decide (other ≠ path) && s.getLink other == some link

/-- The path is put into a slot, and its preferences are those of its link. -/
def nominateAt (i : PathSlot) (path : Path) (link : BondLink) : Bond :=
  let shared := pathSlots.any fun j => sharesLink s link path (b.paths j)
  { b with
    paths := fun j =>
      if j = i then ((b.paths j).set now.toUInt64 path).inherit link !shared
      else if sharesLink s link path (b.paths j) then (b.paths j).shareLink
      else b.paths j }

/-- What `Bond::nominatePathToBond` does before it curates the bond, with a link for the path: the
links that there are then, and the bond. -/
def nominate (path : Path) : Surroundings × Bond :=
  match b.getNominatedPathIdx path, b.freeSlot, s.getLink path with
  | none, some i, some link =>
      let s' := b.createLinks s path
      (s', b.nominateAt s' now i path link)
  | _, _, _ => (s, b)

/-- `Bond::nominatePathToBond`. -/
def nominatePathToBond (path : Path) (estimates : PathSlot → PathEstimate) : Bond :=
  let s' := s.createLink path.localSocket
  if s'.linkAllowed (s'.getLink path) then
    let out := b.nominate s' now path
    (out.2.curateBond out.1 now true).estimatePathQuality estimates
  else b

end Bond

end ZGalaxy
