/-
ZGalaxy/BondFlows.lean

The flows of a bond, and the paths that packets leave by.

Under `balance-xor` and `balance-aware` a packet belongs to a flow, by a hash of its protocol and
ports, and a flow is assigned to a slot (`assignFlowToBondedPath`); under `balance-rr` the packets
are striped over the bonded paths.  A call may read `_realIdxMap` or `_paths` behind the end, which
is `BondFault.invalid`; and the loop that looks for a path of sufficient quality goes on at the same
place when it meets a slot without path, so that a call is given the number of turns that are
looked at, and `BondFault.running` says that the loop has not ended by then.

Every random byte is an argument: the one for the capacity, and one for each turn of the loop.
-/
import ZGalaxy.Bond

namespace ZGalaxy

open PeerPaths

/-! ### The flow table -/

/-- `ZT_FLOW_MAX_COUNT`. -/
def flowMaxCount : ℕ := 65536

/-- The flow id of a packet that belongs to no flow. -/
def noFlowId : Int32 := -1

namespace Flow

/-- `Flow::age`. -/
def age (flow : Flow) (now : Int64) : Int64 := now - flow.lastActivity

/-- `Flow::assignPath`. -/
def assignPath (flow : Flow) (pathIdx : Option PathSlot) (now : Int64) : Flow :=
  { flow with assignedPath := pathIdx, lastPathReassignment := now }

/-- The flow handled traffic. -/
def touch (flow : Flow) (now : Int64) : Flow := { flow with lastActivity := now }

end Flow

/-- `Bond::_flows`, in the order of the keys, to which flow ids are cut off. -/
abbrev FlowTable := List (Int16 × Flow)

/-- The order of the keys. -/
def flowLt (key key' : Int16) : Bool := decide (key < key')

/-- The number of flows of a slot, one up. -/
def NominatedPath.addFlow (np : NominatedPath) : NominatedPath :=
  { np with assignedFlowCount := np.assignedFlowCount + 1 }

/-- The number of flows of a slot, one down. -/
def NominatedPath.dropFlow (np : NominatedPath) : NominatedPath :=
  { np with assignedFlowCount := np.assignedFlowCount - 1 }

namespace Slots

/-- A flow is counted in a slot. -/
def addFlow (paths : Slots) (i : PathSlot) : Slots := Function.update paths i (paths i).addFlow

/-- A flow is no longer counted in its slot.  For one that was never assigned the source writes
behind the end of `_paths`. -/
def dropFlow (paths : Slots) : Option PathSlot → Slots
  | none => paths
  | some i => Function.update paths i (paths i).dropFlow

end Slots

namespace FlowTable

/-- What the scan for the oldest flow keeps: `maxAge`, and the flow. -/
abbrev Scan := UInt64 × Option (Int16 × Flow)

/-- One turn of the scan. -/
def scanFlow (now : Int64) (scan : Scan) (e : Int16 × Flow) : Scan :=
  if scan.1 < (e.2.age now).toUInt64 then ((now - e.2.age now).toUInt64, some e) else scan

/-- `oldestFlow`. -/
def oldestFlow (flows : FlowTable) (now : Int64) : Option (Int16 × Flow) :=
  (flows.foldl (scanFlow now) (0, none)).2

/-- A flow is older than the given age. -/
def isOlder (age : UInt64) (now : Int64) (e : Int16 × Flow) : Bool :=
  decide (age < (e.2.age now).toUInt64)

end FlowTable

namespace Bond

variable (b : Bond) (now : Int64)

/-- Remove by specific age. -/
def forgetOlder (age : UInt64) : Bond :=
  { b with
    flows := b.flows.filter fun e => !FlowTable.isOlder age now e
    paths := (b.flows.filter (FlowTable.isOlder age now)).foldl
      (fun paths e => Slots.dropFlow paths e.2.assignedPath) b.paths }

/-- Remove single oldest by natural expiration. -/
def forgetOldest : Bond :=
  match FlowTable.oldestFlow b.flows now with
  | none => b
  | some e =>
      { b with
        flows := b.flows.erase e
        paths := Slots.dropFlow b.paths e.2.assignedPath }

/-- `Bond::forgetFlowsWhenNecessary`. -/
def forgetFlowsWhenNecessary (age : UInt64) (oldest : Bool) : Bond :=
  if age ≠ 0 then b.forgetOlder now age else if oldest then b.forgetOldest now else b

/-- A flow is put into the table. -/
def putFlow (key : Int16) (flow : Flow) : Bond :=
  { b with flows := SortedMap.set flowLt key flow b.flows }

/-- A flow is counted in a slot. -/
def countFlow (i : PathSlot) : Bond := { b with paths := Slots.addFlow b.paths i }

end Bond

/-! ### Looking for a path of sufficient quality -/

/-- Why a call returns nothing: an index outside of an array was read, or it still runs. -/
inductive BondFault
  | invalid
  | running
deriving DecidableEq

/-- The random bytes of a call, the first for the capacity and one for each turn of the loop, and
the number of turns that are looked at. -/
structure Entropy where
  bytes : ℕ → UInt8
  turns : ℕ

/-- How often a byte is doubled until it is 255 at least. -/
def doublings (e : UInt8) : ℕ :=
  ((List.range 8).find? fun n => decide (255 ≤ e.toNat <<< n)).getD 8

/-- `(float)entropy / 255.0`, rounded to the 24 binary digits of a `float`. -/
def randomLinkCapacity (e : UInt8) : FloatValue :=
  let digits := ((e.toNat <<< (doublings e + 24)) + 255) / 510
  .finite (digits <<< (126 - doublings e) : ℕ)

/-- What the loop keeps: `offset`, `bestQuality` and `nextBestQualIdx`. -/
structure Search where
  offset : ℕ
  bestQuality : FloatValue
  nextBestQualIdx : ℕ
deriving DecidableEq

namespace Search

/-- Before the first turn. -/
def start : Search := ⟨0, .finite 0, maxPeerNetworkPaths⟩

/-- The next bonded index, and its quality if it is better. -/
def advance (search : Search) (bondedIdx : ℕ) (quality : FloatValue) : Search :=
  if search.bestQuality.lt quality then ⟨search.offset + 1, quality, bondedIdx⟩
  else { search with offset := search.offset + 1 }

end Search

/-- What a turn of the loop comes to. -/
inductive Turn
  | invalid
  | acceptable (bondedIdx : ℕ)
  | next (search : Search)

/-- The path in a slot doesn't violate the quality specification. -/
def NominatedPath.isAcceptable (np : NominatedPath) (capacity : FloatValue) : Bool :=
  !np.shouldAvoid && capacity.le np.relativeLinkCapacity

namespace Bond

variable (b : Bond)

/-- `_realIdxMap[bondedIdx]`, and nothing behind its end. -/
def realIdx (bondedIdx : ℕ) : Option PathSlot :=
  if h : bondedIdx < maxPeerNetworkPaths then b.realIdxMap ⟨bondedIdx, h⟩ else none

/-- One turn of the loop, at the place `first` and the offset.  A slot without path is passed over,
and the offset stays. -/
def searchTurn (capacity : FloatValue) (first : ℕ) (search : Search) : Turn :=
  let bondedIdx := (first + search.offset) % b.numBondedPaths
  match b.realIdx bondedIdx with
  | none => .invalid
  | some i =>
      if (b.paths i).p.isNone then .next search
      else if (b.paths i).isAcceptable capacity then .acceptable bondedIdx
      else .next (search.advance bondedIdx (b.paths i).relativeQuality)

/-- The loop, for a number of turns: the bonded index that is found.  `first` says where each turn
begins. -/
def searchLoop (capacity : FloatValue) (first : ℕ → ℕ) : ℕ → ℕ → Search → Except BondFault ℕ
  | 0, _, _ => .error .running
  | turns + 1, k, search =>
      if search.offset < b.numBondedPaths then
        match b.searchTurn capacity (first k) search with
        | .invalid => .error .invalid
        | .acceptable bondedIdx => .ok bondedIdx
        | .next search' => searchLoop capacity first turns (k + 1) search'
      else .ok search.nextBestQualIdx

end Bond

/-! ### Assigning a flow -/

namespace Flow

/-- `assignedPath` as a number. -/
def pathIndex (flow : Flow) : ℕ := flow.assignedPath.elim maxPeerNetworkPaths Fin.val

/-- Where a turn of the loop begins: at the path that the flow was assigned to, or anywhere. -/
def searchFirst (flow : Flow) (reassign : Bool) (entropy : Entropy) (k : ℕ) : ℕ :=
  if reassign then flow.pathIndex else (entropy.bytes (k + 1)).toNat

end Flow

namespace Bond

variable (b : Bond) (flow : Flow) (now : Int64)

/-- The flow is assigned to a slot and counted there. -/
def assignTo : Option PathSlot → Except BondFault (Bond × Flow)
  | none => .error .invalid
  | some i => .ok (b.countFlow i, flow.assignPath (some i) now)

/-- The slot whose number of flows is logged when a flow is assigned again. -/
def loggedSlot : Option PathSlot := flow.assignedPath.bind b.realIdxMap

/-- The bonded index of a flow under `balance-aware`. -/
def awareIdx (reassign : Bool) (entropy : Entropy) : Except BondFault ℕ :=
  if reassign && (b.loggedSlot flow).isNone then .error .invalid
  else
    b.searchLoop (randomLinkCapacity (entropy.bytes 0)) (flow.searchFirst reassign entropy)
      entropy.turns 0 Search.start

/-- The bonded index of a flow under `balance-xor`. -/
def xorIdx : ℕ := (flow.id.toInt.tmod b.numBondedPaths).natAbs

/-- `Bond::assignFlowToBondedPath`: nothing if the bond has no links, else the bond and the
flow. -/
def assignFlowToBondedPath (reassign : Bool) (entropy : Entropy) :
    Except BondFault (Option (Bond × Flow)) :=
  if b.numBondedPaths = 0 then .ok none
  else
    match b.settings.policy with
    | .balanceXOR => (b.assignTo flow now (b.realIdx (b.xorIdx flow))).map some
    | .balanceAware => do
        let bondedIdx ← b.awareIdx flow reassign entropy
        (b.assignTo flow now (b.realIdx bondedIdx)).map some
    | .activeBackup =>
        -- the path that is logged in the end is read
        if b.abPathIdx.isNone then .error .invalid
        else .ok (some (b, flow.assignPath b.abPathIdx now))
    | _ => if flow.assignedPath.isNone then .error .invalid else .ok (some (b, flow))

/-- `Bond::createFlow`, for a flow id that is cut off to a key. -/
def createFlow (pathIdx : Option PathSlot) (flowId : Int32) (entropy : Entropy) :
    Except BondFault (Option (Bond × Flow)) :=
  if b.numBondedPaths = 0 then .ok none
  else
    let b' := if flowMaxCount ≤ b.flows.length then b.forgetFlowsWhenNecessary now 0 true else b
    let flow : Flow := ⟨flowId, now, 0, none⟩
    match pathIdx with
    | some i =>
        let flow' := flow.assignPath (some i) now
        .ok (some ((b'.countFlow i).putFlow flowId.toInt16 flow', flow'))
    | none => do
        match ← b'.assignFlowToBondedPath flow now false entropy with
        | none => .ok (some (b'.putFlow flowId.toInt16 flow, flow))
        | some out => .ok (some (out.1.putFlow flowId.toInt16 out.2, out.2))

end Bond

/-! ### Round robin -/

namespace Bond

variable (b : Bond)

/-- The path with a bonded index. -/
def pathAt (bondedIdx : ℕ) : Except BondFault (Option Path) :=
  match b.realIdx bondedIdx with
  | none => .error .invalid
  | some i => .ok (b.paths i).p

/-- The path with a bonded index, which may be null. -/
def bondedPath (b : Bond) (j : ℕ) : Option Path := (b.realIdx j).bind fun i => (b.paths i).p

/-- The path with a bonded index is there, and is eligible. -/
def rrUsable (bondedIdx : ℕ) : Bool :=
  (b.realIdx bondedIdx).any fun i => (b.paths i).p.isSome && (b.paths i).eligible

/-- The bonded index behind another one. -/
def rrNext (tempIdx : ℕ) : ℕ := if tempIdx + 1 = b.numBondedPaths then 0 else tempIdx + 1

/-- The search for the next path to use, behind `tempIdx`. -/
def rrSearch : ℕ → ℕ → Option ℕ
  | 0, _ => none
  | searchCount + 1, tempIdx =>
      if b.rrUsable (b.rrNext tempIdx) then some (b.rrNext tempIdx)
      else rrSearch searchCount (b.rrNext tempIdx)

/-- The index that the striping goes on with. -/
def rrAdvance : UInt8 :=
  if b.numBondedPaths = 1 ∨ maxPeerNetworkPaths - 1 ≤ b.rrIdx.toNat then 0
  else ((b.rrSearch (b.numBondedPaths - 1) b.rrIdx.toNat).map UInt8.ofNat).getD b.rrIdx

/-- The index is used for one packet more. -/
def rrCount : Bond := { b with rrPacketsSentOnCurrLink := b.rrPacketsSentOnCurrLink + 1 }

/-- The next index is used. -/
def rrSwitch : Bond := { b with rrPacketsSentOnCurrLink := 0, rrIdx := b.rrAdvance }

/-- The bond after the choice of a path under `balance-rr`, with `_packetsPerLink` set. -/
def rrStep : Bond :=
  if (b.rrPacketsSentOnCurrLink.toNat : ℤ) < b.settings.packetsPerLink.toInt then b.rrCount
  else b.rrSwitch

end Bond

/-! ### The path of a packet -/

namespace Bond

variable (b : Bond) (now : Int64)

/-- The path under `balance-rr`. -/
def getPathRR (freeRandomByte : UInt8) : Except BondFault (Bond × Option Path) :=
  if b.settings.packetsPerLink = 0 then
    -- randomly select a path
    (b.pathAt (freeRandomByte.toNat % b.numBondedPaths)).map fun path => (b, path)
  else (b.rrStep.pathAt b.rrStep.rrIdx.toNat).map fun path => (b.rrStep, path)

/-- The path in the slot that a flow is assigned to. -/
def pathOfFlow (flow : Flow) : Except BondFault (Option Path) :=
  match flow.assignedPath with
  | none => .error .invalid
  | some i => .ok (b.paths i).p

/-- The path under `balance-xor` and `balance-aware`. -/
def getPathOfFlow (flowId : Int32) (freeRandomByte : UInt8) (entropy : Entropy) :
    Except BondFault (Bond × Option Path) :=
  if flowId = noFlowId then
    -- no specific path required for unclassified traffic, send on anything
    (b.pathAt (freeRandomByte.toNat % b.numBondedPaths)).map fun path => (b, path)
  else
    match SortedMap.get flowId.toInt16 b.flows with
    | some flow =>
        (b.pathOfFlow flow).map fun path => (b.putFlow flowId.toInt16 (flow.touch now), path)
    | none => do
        match ← b.createFlow now none flowId entropy with
        | none => .error .invalid
        | some out => (out.1.pathOfFlow out.2).map fun path => (out.1, path)

/-- `Bond::getAppropriatePath`. -/
def getAppropriatePath (flowId : Int32) (freeRandomByte : UInt8) (entropy : Entropy) :
    Except BondFault (Bond × Option Path) :=
  if b.settings.policy = .activeBackup then .ok (b, b.abPathIdx.bind fun i => (b.paths i).p)
  else if b.settings.policy.isBalance = false ∨ b.numBondedPaths = 0 then .ok (b, none)
  else if b.settings.policy = .balanceRR then b.getPathRR freeRandomByte
  else b.getPathOfFlow now flowId freeRandomByte entropy

/-! ### Packets that come in -/

/-- A slot is written. -/
def setSlot (i : PathSlot) (np : NominatedPath) : Bond :=
  { b with paths := Function.update b.paths i np }

/-- A path that was dead received a packet. -/
def noteAlive (i : PathSlot) : Bond :=
  if (b.paths i).alive then b
  else b.setSlot i { b.paths i with lastAliveToggle := now.toUInt64 }

/-- What `Bond::recordIncomingPacket` does about a flow: it learns a new one, on the path that the
remote peer chose. -/
def learnFlow (i : PathSlot) (flowId : Int32) : Except BondFault Bond :=
  if flowId ≠ noFlowId ∧ b.settings.policy.isBalance = true ∧
      (SortedMap.get flowId.toInt16 b.flows).isNone then
    (b.createFlow now (some i) flowId ⟨fun _ => 0, 0⟩).map fun out => (out.map Prod.fst).getD b
  else .ok b

/-- `Bond::recordIncomingPacket`. -/
def recordIncomingPacket (path : Path) (flowId : Int32) : Except BondFault Bond :=
  match b.getNominatedPathIdx path with
  | none => .ok b
  | some i => (b.noteAlive now i).learnFlow now i flowId

/-- `Bond::receivedQoS`. -/
def receivedQoS (path : Path) : Bond :=
  match b.getNominatedPathIdx path with
  | none => b
  | some i => b.setSlot i { b.paths i with lastQoSReceived := now.toUInt64 }

end Bond

/-! ### Moving flows -/

namespace Bond

variable (now : Int64)

/-- A flow is assigned again, and no longer counted in its slot. -/
def moveFlow (b : Bond) (entropy : Entropy) (e : Int16 × Flow) (i : PathSlot) :
    Except BondFault Bond := do
  match ← b.assignFlowToBondedPath e.2 now true entropy with
  | none => .ok b
  | some out => .ok { out.1.putFlow e.1 out.2 with paths := Slots.dropFlow out.1.paths (some i) }

/-- The flow's slot has a path that is not eligible. -/
def NominatedPath.isDead (np : NominatedPath) : Bool := np.p.isSome && !np.eligible

/-- The flow's slot has a path that flows should be moved from. -/
def NominatedPath.isAvoided (np : NominatedPath) : Bool := np.p.isSome && np.shouldAvoid

/-- Move (all) flows from dead paths. -/
def moveFromDead (entropy : Int16 → Entropy) : FlowTable → Bond → Except BondFault Bond
  | [], b => .ok b
  | e :: rest, b =>
      match e.2.assignedPath with
      | none => .error .invalid
      | some i =>
          if NominatedPath.isDead (b.paths i) then do
            let b' ← moveFlow now b (entropy e.1) e i
            moveFromDead entropy rest b'
          else moveFromDead entropy rest b

/-- Move (some) flows from low quality paths: only one at a time. -/
def moveOneAvoided (entropy : Int16 → Entropy) : FlowTable → Bond → Except BondFault Bond
  | [], b => .ok b
  | e :: rest, b =>
      match e.2.assignedPath with
      | none => .error .invalid
      | some i =>
          if NominatedPath.isAvoided (b.paths i) then moveFlow now b (entropy e.1) e i
          else moveOneAvoided entropy rest b

/-- Clean up flows if necessary. -/
def expireFlows (b : Bond) : Bond :=
  if bondPathExpiration < now.toUInt64 - b.lastFlowExpirationCheck then
    { b.forgetFlowsWhenNecessary now bondPathExpiration false with
      lastFlowExpirationCheck := now.toUInt64 }
  else b

/-- `Bond::processBalanceTasks`, with the random bytes of each flow in its two loops. -/
def processBalanceTasks (b : Bond) (dead avoided : Int16 → Entropy) : Except BondFault Bond :=
  if b.numBondedPaths = 0 then .ok b
  else
    let b := expireFlows now b
    match b.settings.policy with
    | .balanceXOR => moveFromDead now dead b.flows b
    | .balanceAware => do
        let b ← moveFromDead now dead b.flows b
        moveOneAvoided now avoided b.flows b
    | _ => .ok b

end Bond

end ZGalaxy
