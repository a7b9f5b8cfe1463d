/-
ZGalaxy/ManagedQueues.lean

The queues of outgoing frames, of networks with quality of service, and the gate before them.

A network with quality of service has a control block with `aqmNumBuckets` queues, each of which is
in one of three lists: the new, the old and the inactive ones.  The lists hold pointers, which are
here the places of the queues in the order in which they were allocated.  A frame is put into the
queue of its bucket (`aqmEnqueue`), and then every block is served once (`aqmDequeue`): the first
queue of the new list with credit is examined, and the first of the old list.  An examined queue may
drop frames that waited for too long before it gives one out (`codelDequeue`), and it is there that
the counts of the queue and of the block are left as they were.

The law by which drops are spaced takes a square root of floating point and is a parameter.  Fields
that the constructor of a queue does not set begin as what the memory held.

The scheduler is one for any networks with quality of service (`scheduler`).  The source asks
`Network::qosEnabled`, which is false of every network, and so `aqmMachine` never makes a block:
it sends every packet at once (`runOutputs_aqmMachine`).
-/
import ZGalaxy.Machine
import ZGalaxy.Packet
import ZGalaxy.SortedMap
import Mathlib.Data.List.FinRange

namespace ZGalaxy

open ByteList

/-! ### Constants -/

/-- `ZT_AQM_TARGET`. -/
def aqmTarget : UInt64 := 5

/-- `ZT_AQM_INTERVAL`. -/
def aqmInterval : UInt64 := 100

/-- `ZT_AQM_QUANTUM`, which is `ZT_DEFAULT_MTU`. -/
def aqmQuantum : ℤ := 2800

/-- `ZT_AQM_MAX_ENQUEUED_PACKETS`. -/
def aqmMaxEnqueuedPackets : ℤ := 1024

/-- `ZT_AQM_NUM_BUCKETS`. -/
def aqmNumBuckets : ℕ := 9

/-- `Packet::VERB_FRAME`. -/
def verbFrame : UInt8 := 0x06

/-- `Packet::VERB_EXT_FRAME`. -/
def verbExtFrame : UInt8 := 0x07

/-! ### Queues and control blocks -/

/-- `Switch::TXQueueEntry`. -/
structure TXQueueEntry where
  dest : Address
  nwid : NetworkId
  creationTime : UInt64
  packet : Bytes
  encrypt : Bool
  flowId : Int32
deriving DecidableEq

/-- What the memory of a queue held in the fields that its constructor does not set. -/
structure QueueMemory where
  firstAboveTime : UInt64
  count : UInt32
  dropNext : UInt64

/-- `Switch::ManagedQueue`. -/
structure ManagedQueue where
  id : ℤ
  byteCredit : ℤ
  byteLength : ℤ
  firstAboveTime : UInt64
  count : UInt32
  dropNext : UInt64
  dropping : Bool
  q : List TXQueueEntry
deriving DecidableEq

/-- The queue with more credit. -/
def ManagedQueue.giveCredit (queue : ManagedQueue) : ManagedQueue :=
  { queue with byteCredit := queue.byteCredit + aqmQuantum }

/-- The place of a queue among those that its block allocated. -/
abbrev QueueRef := Fin aqmNumBuckets

/-- `new ManagedQueue(i)`. -/
def ManagedQueue.init (memory : QueueMemory) (i : QueueRef) : ManagedQueue where
  id := i
  byteCredit := aqmQuantum
  byteLength := 0
  firstAboveTime := memory.firstAboveTime
  count := memory.count
  dropNext := memory.dropNext
  dropping := false
  q := []

/-- `Switch::NetworkQoSControlBlock`, with what the pointers in its lists point to. -/
structure NetworkQoSControlBlock where
  queues : QueueRef → ManagedQueue
  currEnqueuedPackets : ℤ
  newQueues : List QueueRef
  oldQueues : List QueueRef
  inactiveQueues : List QueueRef

namespace NetworkQoSControlBlock

/-- A new block, all of whose queues are inactive. -/
def init (memory : QueueRef → QueueMemory) : NetworkQoSControlBlock where
  queues i := ManagedQueue.init (memory i) i
  currEnqueuedPackets := 0
  newQueues := []
  oldQueues := []
  inactiveQueues := List.finRange aqmNumBuckets

variable (b : NetworkQoSControlBlock)

/-- The queue at a place is written. -/
def write (r : QueueRef) (queue : ManagedQueue) : NetworkQoSControlBlock :=
  { b with queues := Function.update b.queues r queue }

/-! ### Enqueueing -/

/-- The queue at place `i` of a list, if it is that of the bucket. -/
def foundAt (qosBucket : ℤ) (i : ℕ) (l : List QueueRef) : Option QueueRef :=
  l[i]?.filter fun r => (b.queues r).id == qosBucket

/-- One turn of the loop that looks for the queue of a bucket, with `selectedQueue`.  A queue that
is found among the inactive ones moves to the end of the new ones. -/
def lookAt (qosBucket : ℤ) (s : NetworkQoSControlBlock × Option QueueRef) (i : ℕ) :
    NetworkQoSControlBlock × Option QueueRef :=
  let inOld := s.1.foundAt qosBucket i s.1.oldQueues
  let inNew := s.1.foundAt qosBucket i s.1.newQueues
  match s.1.foundAt qosBucket i s.1.inactiveQueues with
  | none => (s.1, inNew.or (inOld.or s.2))
  | some r =>
      ({ s.1.write r { s.1.queues r with byteCredit := aqmQuantum } with
          newQueues := s.1.newQueues ++ [r]
          inactiveQueues := s.1.inactiveQueues.eraseIdx i }, some r)

/-- The loop: the block, and the queue of the bucket. -/
def selectQueue (qosBucket : ℤ) : NetworkQoSControlBlock × Option QueueRef :=
  (List.range aqmNumBuckets).foldl (lookAt qosBucket) (b, none)

/-- A frame is put at the end of a queue. -/
def push (r : QueueRef) (entry : TXQueueEntry) : NetworkQoSControlBlock :=
  let queue := b.queues r
  { b.write r
      { queue with
        q := queue.q ++ [entry]
        byteLength := queue.byteLength + Packet.payloadLength entry.packet } with
    currEnqueuedPackets := b.currEnqueuedPackets + 1 }

/-- A queue that has more bytes than the ones before. -/
def longer (s : ℤ × Option QueueRef) (r : QueueRef) : ℤ × Option QueueRef :=
  if s.1 < (b.queues r).byteLength then ((b.queues r).byteLength, some r) else s

/-- One turn of the loop that looks for the queue with the most bytes. -/
def longerAt (s : ℤ × Option QueueRef) (i : ℕ) : ℤ × Option QueueRef :=
  ([b.oldQueues, b.newQueues, b.inactiveQueues].filterMap fun l => l[i]?).foldl b.longer s

/-- The queue to drop from. -/
def selectedQueueToDropFrom : Option QueueRef :=
  ((List.range aqmNumBuckets).foldl b.longerAt (0, none)).2

/-- The first frame of a queue is dropped.  The queue has bytes, so that there is one; without one
the source reads through the end of a list. -/
def dropFront (r : QueueRef) : NetworkQoSControlBlock × List TXQueueEntry :=
  let queue := b.queues r
  match queue.q with
  | [] => (b, [])
  | entry :: rest =>
      ({ b.write r
          { queue with
            q := rest
            byteLength := queue.byteLength - Packet.payloadLength entry.packet } with
        currEnqueuedPackets := b.currEnqueuedPackets - 1 }, [entry])

/-- Drop a packet if necessary. -/
def dropExcess : NetworkQoSControlBlock × List TXQueueEntry :=
  if aqmMaxEnqueuedPackets < b.currEnqueuedPackets then
    match b.selectedQueueToDropFrom with
    | none => (b, [])
    | some r => b.dropFront r
  else (b, [])

end NetworkQoSControlBlock

/-! ### Dropping what waited for too long -/

/-- `Switch::dqr`: the frame at the front, and whether it may be dropped. -/
structure Dqr where
  p : Option TXQueueEntry
  okToDrop : Bool

namespace ManagedQueue

/-- `Switch::dodequeue`, which takes nothing from the queue. -/
def dodequeue (queue : ManagedQueue) (now : UInt64) : ManagedQueue × Dqr :=
  match queue.q with
  | [] => ({ queue with firstAboveTime := 0 }, ⟨none, false⟩)
  | p :: _ =>
      if now - p.creationTime < aqmTarget ∨ queue.byteLength ≤ aqmQuantum then
        ({ queue with firstAboveTime := 0 }, ⟨some p, false⟩)
      else if queue.firstAboveTime = 0 then
        ({ queue with firstAboveTime := now + aqmInterval }, ⟨some p, false⟩)
      else (queue, ⟨some p, decide (queue.firstAboveTime ≤ now)⟩)

variable (controlLaw : UInt64 → UInt32 → UInt64)

/-- The loop of `Switch::CoDelDequeue`, while `n` frames are left. -/
def codelLoop (now : UInt64) : ℕ → ManagedQueue → Dqr → ManagedQueue × Dqr
  | 0, queue, r => (queue, r)
  | n + 1, queue, r =>
      if queue.dropNext ≤ now ∧ queue.dropping = true then
        let out := dodequeue { queue with q := queue.q.tail } now
        if out.2.okToDrop then
          codelLoop now n
            { out.1 with
              count := out.1.count + 1
              dropNext := controlLaw out.1.dropNext (out.1.count + 1) } out.2
        -- leave dropping state
        else codelLoop now n { out.1 with dropping := false } out.2
      else (queue, r)

/-- `Switch::CoDelDequeue`: the queue, and the frame to give out. -/
def codelDequeue (queue : ManagedQueue) (now : UInt64) : ManagedQueue × Option TXQueueEntry :=
  let out := dodequeue queue now
  if out.1.dropping then
    let queue' := if out.2.okToDrop then out.1 else { out.1 with dropping := false }
    let done := codelLoop controlLaw now queue.q.length queue' out.2
    (done.1, done.2.p)
  else if out.2.okToDrop then
    let out' := dodequeue { out.1 with q := out.1.q.tail } now
    let count :=
      if 2 < out'.1.count ∧ now - out'.1.dropNext < 8 * aqmInterval then out'.1.count - 2 else 1
    ({ out'.1 with dropping := true, count := count, dropNext := controlLaw now count }, out'.2.p)
  else (out.1, out.2.p)

end ManagedQueue

/-! ### Serving a block -/

namespace NetworkQoSControlBlock

variable (controlLaw : UInt64 → UInt32 → UInt64) (b : NetworkQoSControlBlock)

/-- The queues without credit at the front of the new list move to the old one, with more credit. -/
def skipNew : List QueueRef → NetworkQoSControlBlock → NetworkQoSControlBlock
  | [], b => { b with newQueues := [] }
  | r :: rest, b =>
      if (b.queues r).byteCredit < 0 then
        skipNew rest
          { b.write r (b.queues r).giveCredit with oldQueues := b.oldQueues ++ [r] }
      else { b with newQueues := r :: rest }

/-- The credit that the queues of a list lack. -/
def debt (l : List QueueRef) : ℕ := (l.map fun r => (-(b.queues r).byteCredit).toNat).sum

/-- The queues without credit at the front of the old list move to its end, with more credit, for
at most `n` turns. -/
def skipOld : ℕ → NetworkQoSControlBlock → NetworkQoSControlBlock
  | 0, b => b
  | n + 1, b =>
      match b.oldQueues with
      | [] => b
      | r :: rest =>
          if (b.queues r).byteCredit < 0 then
            skipOld n { b.write r (b.queues r).giveCredit with oldQueues := rest ++ [r] }
          else b

/-- What a queue that is examined leaves of the block, and the frame that it gives out. -/
def examine (now : UInt64) (r : QueueRef) : NetworkQoSControlBlock × Option TXQueueEntry :=
  let out := (b.queues r).codelDequeue controlLaw now
  match out.2 with
  | none => (b.write r out.1, none)
  | some entry =>
      let len : ℤ := Packet.payloadLength entry.packet
      ({ b.write r
          { out.1 with
            byteLength := out.1.byteLength - len
            byteCredit := out.1.byteCredit - len
            q := out.1.q.tail } with
        currEnqueuedPackets := b.currEnqueuedPackets - 1 }, some entry)

/-- The first queue of the new list is examined.  If it has nothing it moves to the old list. -/
def examineNew (now : UInt64) : NetworkQoSControlBlock × Option TXQueueEntry :=
  match b.newQueues with
  | [] => (b, none)
  | r :: rest =>
      let out := b.examine controlLaw now r
      match out.2 with
      | none => ({ out.1 with newQueues := rest, oldQueues := out.1.oldQueues ++ [r] }, none)
      | some entry => (out.1, some entry)

/-- The first queue of the old list is examined.  If it has nothing it becomes inactive. -/
def examineOld (now : UInt64) : NetworkQoSControlBlock × Option TXQueueEntry :=
  match b.oldQueues with
  | [] => (b, none)
  | r :: rest =>
      let out := b.examine controlLaw now r
      match out.2 with
      | none =>
          ({ out.1 with oldQueues := rest, inactiveQueues := out.1.inactiveQueues ++ [r] }, none)
      | some entry => (out.1, some entry)

/-- The block when the loop over its new list arrives at a queue with credit. -/
def atNew : NetworkQoSControlBlock := skipNew b.newQueues b

/-- The block when the loop over its old list arrives at a queue with credit. -/
def atOld : NetworkQoSControlBlock := skipOld (b.debt b.oldQueues + 1) b

/-- One turn of the loop of `Switch::aqm_dequeue`: the block, and the frames that are sent. -/
def serve (now : UInt64) : NetworkQoSControlBlock × List TXQueueEntry :=
  let first := b.atNew.examineNew controlLaw now
  let second := first.1.atOld.examineOld controlLaw now
  (second.1, first.2.toList ++ second.2.toList)

end NetworkQoSControlBlock

/-! ### All networks -/

/-- What the scheduler sends: a packet at once, or a frame out of the queues of a network. -/
inductive AqmOutput
  | sent (packet : Bytes) (encrypt : Bool) (nwid : NetworkId) (flowId : Int32)
  | emitted (network : NetworkId) (entry : TXQueueEntry)
  | dropped (network : NetworkId) (entry : TXQueueEntry)
deriving DecidableEq

/-- `Switch::_netQueueControlBlock`, in the order of the network ids. -/
abbrev QueueBlocks := List (NetworkId × NetworkQoSControlBlock)

/-- `Switch::aqm_dequeue`, with the time at which the block of each network is served. -/
def aqmDequeue (controlLaw : UInt64 → UInt32 → UInt64) (clock : NetworkId → UInt64) :
    QueueBlocks → QueueBlocks × List AqmOutput
  | [] => ([], [])
  | (network, b) :: blocks =>
      if b.currEnqueuedPackets = 0 then ((network, b) :: blocks, [])
      else
        let out := b.serve controlLaw (clock network)
        let rest := aqmDequeue controlLaw clock blocks
        ((network, out.1) :: rest.1, out.2.map (AqmOutput.emitted network) ++ rest.2)

/-- The arguments of `Switch::aqm_enqueue`, and what it asks for: the clock, and what the memory of
the queues of a new block held. -/
structure Enqueue where
  network : NetworkId
  packet : Bytes
  encrypt : Bool
  qosBucket : ℤ
  nwid : NetworkId
  flowId : Int32
  creationTime : UInt64
  memory : QueueRef → QueueMemory

namespace Enqueue

variable (e : Enqueue)

/-- The frame as it is put into a queue. -/
def entry : TXQueueEntry :=
  ⟨Packet.destination e.packet, e.nwid, e.creationTime, e.packet, e.encrypt, e.flowId⟩

/-- What is sent without waiting. -/
def sentAtOnce : List AqmOutput :=
  if Packet.verb e.packet ≠ verbFrame ∧ Packet.verb e.packet ≠ verbExtFrame then
    [.sent e.packet e.encrypt e.nwid e.flowId]
  else []

/-- The block of the network, which is made where there is none. -/
def block (blocks : QueueBlocks) : NetworkQoSControlBlock :=
  (SortedMap.get e.network blocks).getD (NetworkQoSControlBlock.init e.memory)

/-- The blocks with a new block of the network. -/
def store (b : NetworkQoSControlBlock) (blocks : QueueBlocks) : QueueBlocks :=
  SortedMap.set (fun n n' : NetworkId => decide (n < n')) e.network b blocks

/-- What `Switch::aqm_enqueue` does before it serves the blocks: the blocks, the frames that are
dropped, and whether a queue took the frame. -/
def putIn (blocks : QueueBlocks) : QueueBlocks × List AqmOutput × Bool :=
  let selected := (e.block blocks).selectQueue e.qosBucket
  match selected.2 with
  | none => (e.store selected.1 blocks, [], false)
  | some r =>
      let out := (selected.1.push r e.entry).dropExcess
      (e.store out.1 blocks, out.2.map (AqmOutput.dropped e.network), true)

end Enqueue

/-- The packet as it is sent where nothing is queued. -/
def Enqueue.sent (e : Enqueue) : AqmOutput := .sent e.packet e.encrypt e.nwid e.flowId

/-- `Network::qosEnabled`. -/
def qosEnabled (_network : NetworkId) : Bool := false

/-- `Switch::aqm_enqueue`, where some networks have quality of service. -/
def aqmEnqueue (enabled : NetworkId → Bool) (controlLaw : UInt64 → UInt32 → UInt64) (e : Enqueue)
    (clock : NetworkId → UInt64) (blocks : QueueBlocks) : QueueBlocks × List AqmOutput :=
  if enabled e.network then
    let put := e.putIn blocks
    if put.2.2 then
      let out := aqmDequeue controlLaw clock put.1
      (out.1, e.sentAtOnce ++ (put.2.1 ++ out.2))
    else (put.1, e.sentAtOnce)
  else (blocks, [e.sent])

/-- The calls of the scheduler, with what the clock says as they serve the networks. -/
inductive AqmEvent
  | enqueue (e : Enqueue) (clock : NetworkId → UInt64)
  | dequeue (clock : NetworkId → UInt64)

/-- The scheduler, where some networks have quality of service. -/
def scheduler (enabled : NetworkId → Bool) (controlLaw : UInt64 → UInt32 → UInt64) :
    Machine QueueBlocks AqmEvent AqmOutput where
  step blocks
    | .enqueue e clock => aqmEnqueue enabled controlLaw e clock blocks
    | .dequeue clock => aqmDequeue controlLaw clock blocks

/-- The scheduler of the source. -/
def aqmMachine (controlLaw : UInt64 → UInt32 → UInt64) : Machine QueueBlocks AqmEvent AqmOutput :=
  scheduler qosEnabled controlLaw

/-! ### Without quality of service -/

/-- What a call sends where nothing is queued. -/
def AqmEvent.sent : AqmEvent → List AqmOutput
  | .enqueue e _ => [e.sent]
  | .dequeue _ => []

variable {controlLaw : UInt64 → UInt32 → UInt64}

/-- A call makes no block, and sends its packet. -/
theorem step_aqmMachine (event : AqmEvent) :
    (aqmMachine controlLaw).step [] event = ([], event.sent) := by
  cases event with
  | enqueue e clock =>
      show aqmEnqueue qosEnabled controlLaw e clock [] = ([], [e.sent])
      unfold aqmEnqueue
      exact if_neg Bool.false_ne_true
  | dequeue clock => rfl

/-- **No block** is ever made. -/
theorem runState_aqmMachine (controlLaw : UInt64 → UInt32 → UInt64) (events : List AqmEvent) :
    (aqmMachine controlLaw).runState [] events = [] := by
  induction events with
  | nil => rfl
  | cons event events ih => rw [Machine.runState_cons, step_aqmMachine, ih]

/-- **Every packet is sent at once**, and in order. -/
theorem runOutputs_aqmMachine (controlLaw : UInt64 → UInt32 → UInt64) (events : List AqmEvent) :
    (aqmMachine controlLaw).runOutputs [] events = events.flatMap AqmEvent.sent := by
  induction events with
  | nil => rfl
  | cons event events ih =>
      rw [Machine.runOutputs_cons, step_aqmMachine, List.flatMap_cons, ih]

end ZGalaxy
