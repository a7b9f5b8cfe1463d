/-
ZGalaxy/Switch.lean

The switch: sending a packet over a path, and receiving a datagram.

`sendViaSpecificPath` cuts a packet into a head and fragments.
`onRemotePacket` takes what arrives apart into its four cases, a fragment or a
head, for another node or for this one, and keeps the receive queue: a ring of
`rxQueueSize` slots in which the fragments of a packet wait for each other.  A slot
is in use while its timestamp is not zero; everything else in it outlives its use,
because the queue is never cleared, only overwritten.  The initial contents of a
slot, apart from the timestamp, are whatever the memory held.

What the switch asks of the rest of the node (whether to relay, the peers it
knows, what decoding a packet came to) is part of the event: an `Arrival` carries
the answers this one datagram gets.  What it does to the rest of the node is an
`Effect`.

The queue also changes between arrivals, when packets that wait for something are
tried again (`retryQueue`), and `switchMachine` runs both kinds of event.
-/
import ZGalaxy.Armor
import ZGalaxy.Machine
import Mathlib.Logic.Function.Basic

namespace ZGalaxy

open ByteList

/-! ### Sending over a path -/

/-- `getOutboundPathInfo` and the path's own MTU setting. -/
structure OutboundPath where
  mtu : ℕ
  trustedPathId : BitVec 64
  /-- zero when the user set none -/
  userSpecifiedMtu : ℕ

/-- The default physical path: no configuration for it, no MTU set by the user. -/
def OutboundPath.default : OutboundPath := ⟨defaultPhysMtu, 0, 0⟩

/-- What a packet is armored with. -/
structure PeerKeys (C : Crypto) where
  key : Bytes
  aesKeysIfSupported : Option C.AesKeys
  /-- the key pair `armor` would generate, unused without extended armor -/
  ephemeral : C.PrivateKey
  identity : Bytes

/-- The fragments of `p` numbered from `fno` on, while `n` are left: those sent, and
the exception that stopped the loop. -/
def sendFragments (p : Bytes) (fragSize total : ℕ) :
    ℕ → ℕ → ℕ → ℕ → List Bytes × Option ZTException
  | 0, _, _, _ => ([], none)
  | n + 1, fno, fragStart, remaining =>
      let chunkSize := min remaining fragSize
      match Fragment.init p fragStart chunkSize fno total with
      | .error e => ([], some e)
      | .ok frag =>
          let (frags, err) :=
            sendFragments p fragSize total n (fno + 1) (fragStart + chunkSize)
              (remaining - chunkSize)
          (frag :: frags, err)

/-- What `_sendViaSpecificPath` puts on the path for the finished packet `p`.
`sent` is whether sending the head succeeded. -/
def emit (mtu : ℕ) (sent : Bool) (p : Bytes) : List Bytes × Option ZTException :=
  let chunkSize := min p.length mtu
  let head := p.take chunkSize
  if sent = true ∧ chunkSize < p.length then
    -- Too big for one packet, fragment the rest
    let fragSize := (mtu + 2 ^ 32 - protoMinFragmentLength) % 2 ^ 32
    let remaining := p.length - chunkSize
    let fragsRemaining := remaining / fragSize
    let fragsRemaining :=
      if fragsRemaining * fragSize % 2 ^ 32 < remaining then fragsRemaining + 1 else fragsRemaining
    let (frags, err) := sendFragments p fragSize (fragsRemaining + 1) fragsRemaining 1 chunkSize
      remaining
    (head :: frags, err)
  else
    ([head], none)

/-- `Switch::_sendViaSpecificPath`: the packet as it was sent, the datagrams in
order and the exception that cut them short. -/
def sendViaSpecificPath (C : Crypto) (fast : Bool) (keys : PeerKeys C) (path : OutboundPath)
    (sent : Bool) (encrypt : Bool) (packet : Bytes) :
    Except ZTException (Bytes × List Bytes × Option ZTException) :=
  let mtu := if 0 < path.userSpecifiedMtu then path.userSpecifiedMtu else path.mtu
  let packet := Packet.setFragmented packet (decide (min packet.length mtu < packet.length))
  let armored :=
    if path.trustedPathId ≠ 0 then
      .ok (Packet.setTrusted packet path.trustedPathId)
    else if Packet.isEncrypted packet then
      .ok packet
    else
      Packet.armor C fast keys.key keys.aesKeysIfSupported keys.ephemeral keys.identity encrypt
        false packet
  armored.map fun packet => (packet, emit mtu sent packet)

/-! ### The receive queue -/

/-- `ZT_RX_QUEUE_SIZE`. -/
def rxQueueSize : ℕ := 32

/-- `ZT_RECEIVE_QUEUE_TIMEOUT`. -/
def receiveQueueTimeout : ℤ := 5000

/-- `ZT_MIN_UNITE_INTERVAL`. -/
def minUniteInterval : BitVec 64 := 30000

/-- `ZT_QOS_NO_FLOW`. -/
def qosNoFlow : ℤ := -1

/-- `Utils::countBits`. -/
def countBits (v : BitVec 32) : BitVec 32 :=
  let v := v - ((v >>> 1) &&& 0x55555555)
  let v := (v &&& 0x33333333) + ((v >>> 2) &&& 0x33333333)
  (((v + (v >>> 4)) &&& 0xF0F0F0F) * 0x1010101) >>> 24

variable {Path Peer : Type*}

/-- A packet being decoded. -/
structure IncomingPacket (Path : Type*) where
  data : Bytes
  receiveTime : ℤ
  path : Path
  authenticated : Bool

/-- `Switch::RXQueueEntry`. -/
structure RXQueueEntry (Path : Type*) where
  /-- 0 if entry is not in use -/
  timestamp : ℤ
  packetId : BitVec 64
  /-- head of packet -/
  frag0 : IncomingPacket Path
  /-- later fragments (if any) -/
  frags : ℕ → Bytes
  /-- 0 if only frag0 received, waiting for frags -/
  totalFragments : ℕ
  /-- bit mask, LSB to MSB -/
  haveFragments : BitVec 32
  /-- if true, packet is complete -/
  complete : Bool
  flowId : ℤ

/-- The state of the switch that datagrams reach. -/
structure Switch (Path : Type*) where
  rxQueue : Fin rxQueueSize → RXQueueEntry Path
  rxQueuePtr : BitVec 32
  /-- the time of the last attempt for each pair of addresses, 0 if none -/
  lastUniteAttempt : Address × Address → BitVec 64

/-- A datagram, with the answers the rest of the node gives while it is handled. -/
structure Arrival (Path Peer : Type*) where
  data : Bytes
  now : ℤ
  path : Path
  amUpstream : Bool
  trustEstablished : Bool
  getPeer : Address → Option Peer
  getUpstreamPeer : Option Peer
  address : Peer → Address
  /-- whether a datagram goes out to a peer, perhaps over a dead path -/
  sendDirect : Peer → Bytes → Bool → Bool
  /-- whether the packet is done with, and the packet afterwards -/
  tryDecode : IncomingPacket Path → Bool × IncomingPacket Path

/-- What handling a datagram does to the rest of the node. -/
inductive Effect (Path Peer : Type*)
  /-- `Peer::sendDirect` -/
  | sendDirect (peer : Peer) (data : Bytes) (force : Bool)
  /-- `Peer::introduce` -/
  | introduce (peer other : Peer)
  /-- `tryDecode` on an unfragmented packet -/
  | decodeWhole (packet : IncomingPacket Path)
  /-- `tryDecode` on a packet assembled from its fragments -/
  | decodeAssembled (packet : IncomingPacket Path)
  /-- `tryDecode` on a packet that waited in the queue -/
  | decodeAgain (packet : IncomingPacket Path)

/-- The slot of the ring at position `x`. -/
def slot (x : BitVec 32) : Fin rxQueueSize := ⟨x.toNat % rxQueueSize, Nat.mod_lt _ (by decide)⟩

namespace Switch

variable (s : Switch Path)

/-- An entry in use for the packet `id`. -/
def matchesEntry (id : BitVec 64) (k : ℕ) : Bool :=
  let rq := s.rxQueue (slot (s.rxQueuePtr - BitVec.ofNat 32 k))
  rq.packetId == id && rq.timestamp != 0

/-- `_findRXQueueEntry`: the latest entry in use for the packet, otherwise the next
slot of the ring, whose pointer then moves on. -/
def findRXQueueEntry (id : BitVec 64) : Fin rxQueueSize × Switch Path :=
  match (List.range' 1 rxQueueSize).find? (s.matchesEntry id) with
  | some k => (slot (s.rxQueuePtr - BitVec.ofNat 32 k), s)
  | none => (slot s.rxQueuePtr, { s with rxQueuePtr := s.rxQueuePtr + 1 })

/-- The switch with another entry in a slot. -/
def setEntry (i : Fin rxQueueSize) (rq : RXQueueEntry Path) : Switch Path :=
  { s with rxQueue := Function.update s.rxQueue i rq }

/-- Find the entry for a packet and let `f` change it, perhaps decoding what it
assembled. -/
def updateRXQueueEntry (id : BitVec 64)
    (f : RXQueueEntry Path → RXQueueEntry Path × Option (IncomingPacket Path)) :
    Switch Path × List (Effect Path Peer) :=
  let (i, s) := s.findRXQueueEntry id
  let (rq, decoded) := f (s.rxQueue i)
  (s.setEntry i rq, (decoded.map .decodeAssembled).toList)

end Switch

namespace RXQueueEntry

variable (rq : RXQueueEntry Path)

/-- The loop that appends the payloads of the fragments in the list to a buffer;
an error carries the buffer as it stood when there was no room. -/
def appendPayloads (frags : ℕ → Bytes) : List ℕ → Bytes → Except Bytes Bytes
  | [], b => .ok b
  | f :: fs, b =>
      let payload := Fragment.payload (frags (f - 1))
      if protoMaxPacketLength < b.length + payload.length then
        .error b
      else
        appendPayloads frags fs (b ++ payload)

/-- Append fragments 1 to `total - 1` to the head and try to decode the packet. -/
def assemble (total : ℕ) (tryDecode : IncomingPacket Path → Bool × IncomingPacket Path) :
    RXQueueEntry Path × Option (IncomingPacket Path) :=
  match appendPayloads rq.frags (List.range' 1 (total - 1)) rq.frag0.data with
  | .error b => ({ rq with frag0 := { rq.frag0 with data := b } }, none)
  | .ok b =>
      let packet := { rq.frag0 with data := b }
      let (done, packet') := tryDecode packet
      if done then
        -- packet decoded, free entry
        ({ rq with frag0 := packet', timestamp := 0 }, some packet)
      else
        -- leave entry since it probably needs WHOIS or something
        ({ rq with frag0 := packet', complete := true }, some packet)

/-- The bit of a fragment in `haveFragments`. -/
def bit (no : ℕ) : BitVec 32 := 1 <<< no

/-- What a fragment of this packet does to the entry found for it. -/
def receiveFragment (a : Arrival Path Peer) : RXQueueEntry Path × Option (IncomingPacket Path) :=
  let id := Fragment.packetId a.data
  let no := Fragment.fragmentNumber a.data
  let total := Fragment.totalFragments a.data
  if rq.packetId ≠ id then
    -- No packet found, so we received a fragment without its head.
    ({ rq with
        flowId := qosNoFlow, timestamp := a.now, packetId := id,
        frags := Function.update rq.frags (no - 1) a.data,
        totalFragments := total, haveFragments := bit no, complete := false }, none)
  else if rq.haveFragments &&& bit no = 0 then
    -- We have other fragments and maybe the head, so add this one and check
    let rq :=
      { rq with
        frags := Function.update rq.frags (no - 1) a.data,
        totalFragments := total, haveFragments := rq.haveFragments ||| bit no }
    if countBits rq.haveFragments = BitVec.ofNat 32 total then
      rq.assemble total a.tryDecode
    else
      (rq, none)
  else
    -- this is a duplicate fragment, ignore
    (rq, none)

/-- `IncomingPacket::init`; throws when the datagram does not fit. -/
def initHead (a : Arrival Path Peer) : Option (RXQueueEntry Path) :=
  if protoMaxPacketLength < a.data.length then
    none
  else
    some { rq with frag0 := ⟨a.data, a.now, a.path, false⟩ }

/-- What a head of this packet does to the entry found for it. -/
def receiveHead (a : Arrival Path Peer) : RXQueueEntry Path × Option (IncomingPacket Path) :=
  let id := Packet.packetId a.data
  if rq.packetId ≠ id then
    -- If we have no other fragments yet, create an entry and save the head
    let rq := { rq with flowId := qosNoFlow, timestamp := a.now, packetId := id }
    match rq.initHead a with
    | none => (rq, none)
    | some rq => ({ rq with totalFragments := 0, haveFragments := 1, complete := false }, none)
  else if rq.haveFragments &&& 1 = 0 then
    -- If we have other fragments but no head, see if we are complete with the head
    if 1 < rq.totalFragments then
      let rq := { rq with haveFragments := rq.haveFragments ||| 1 }
      match rq.initHead a with
      | none => (rq, none)
      | some rq =>
          if countBits rq.haveFragments = BitVec.ofNat 32 rq.totalFragments then
            rq.assemble rq.totalFragments a.tryDecode
          else
            -- Still waiting on more fragments, but keep the head
            (rq, none)
    else
      ((rq.initHead a).getD rq, none)
  else
    -- this is a duplicate head, ignore
    (rq, none)

/-- What `doAnythingWaitingForPeer` and `doTimerTasks` do to an entry. -/
def retry (now : ℤ) (tryDecode : IncomingPacket Path → Bool × IncomingPacket Path) :
    RXQueueEntry Path × Option (IncomingPacket Path) :=
  if rq.timestamp ≠ 0 ∧ rq.complete = true then
    let (done, packet) := tryDecode rq.frag0
    if done = true ∨ receiveQueueTimeout < now - rq.timestamp then
      ({ rq with frag0 := packet, timestamp := 0 }, some rq.frag0)
    else
      ({ rq with frag0 := packet }, some rq.frag0)
  else
    (rq, none)

end RXQueueEntry

namespace Switch

variable (s : Switch Path) (a : Arrival Path Peer)

/-! ### Relaying -/

/-- A fragment for a different node: maybe send it there if we should relay. -/
def relayFragment : List (Effect Path Peer) :=
  if a.amUpstream = false ∧ a.trustEstablished = false then
    []
  else if (Fragment.hops a.data).toNat < relayMaxHops then
    let fragment := Fragment.incrementHops a.data
    let direct := a.getPeer (Fragment.destination a.data)
    let tried := (direct.map fun peer => Effect.sendDirect peer fragment false).toList
    if direct.any fun peer => a.sendDirect peer fragment false then
      tried
    else
      -- Don't know peer or no direct path -- so relay via someone upstream
      tried ++ (a.getUpstreamPeer.map fun peer => Effect.sendDirect peer fragment true).toList
  else
    []

/-- `_LastUniteKey`: the two addresses in ascending order. -/
def lastUniteKey (a₁ a₂ : Address) : Address × Address :=
  if a₂ < a₁ then (a₂, a₁) else (a₁, a₂)

/-- `_shouldUnite`. -/
def shouldUnite (now : ℤ) (source destination : Address) : Bool × Switch Path :=
  let key := lastUniteKey source destination
  let now := BitVec.ofInt 64 now
  if minUniteInterval ≤ now - s.lastUniteAttempt key then
    (true, { s with lastUniteAttempt := Function.update s.lastUniteAttempt key now })
  else
    (false, s)

/-- Introduce the source of a relayed packet to the peer it went to. -/
def introduceSource (source : Address) (peer : Peer) : List (Effect Path Peer) :=
  ((a.getPeer source).map fun sourcePeer => Effect.introduce peer sourcePeer).toList

/-- A packet head for a different node: maybe send it there if we should relay. -/
def relayHead : Switch Path × List (Effect Path Peer) :=
  let source := Packet.source a.data
  let destination := Packet.destination a.data
  if a.amUpstream = false ∧ a.trustEstablished = false then
    (s, [])
  else if protoMaxPacketLength < a.data.length then
    -- the constructor of the packet throws
    (s, [])
  else if (Packet.hops a.data).toNat < relayMaxHops then
    let packet := Packet.incrementHops a.data
    let direct := a.getPeer destination
    let tried := (direct.map fun peer => Effect.sendDirect peer packet false).toList
    match direct.filter fun peer => a.sendDirect peer packet false with
    | some relayTo =>
        let (unite, s) := s.shouldUnite a.now source destination
        (s, tried ++ if unite then introduceSource a source relayTo else [])
    | none =>
        match a.getUpstreamPeer.filter fun peer => a.address peer != source with
        | some relayTo =>
            (s, tried ++ [Effect.sendDirect relayTo packet true] ++
              if a.sendDirect relayTo packet true then introduceSource a source relayTo else [])
        | none => (s, tried)
  else
    (s, [])

/-! ### Receiving -/

/-- A fragment that appears to be ours. -/
def receiveFragment : Switch Path × List (Effect Path Peer) :=
  let no := Fragment.fragmentNumber a.data
  let total := Fragment.totalFragments a.data
  -- Its fragment number must be 1 or more, since a packet with fragmented bit set is fragment 0.
  if total ≤ maxPacketFragments ∧ no < maxPacketFragments ∧ 0 < no ∧ 1 < total then
    s.updateRXQueueEntry (Fragment.packetId a.data) fun rq => rq.receiveFragment a
  else
    (s, [])

/-- The head of a fragmented packet that appears to be ours. -/
def receiveHead : Switch Path × List (Effect Path Peer) :=
  s.updateRXQueueEntry (Packet.packetId a.data) fun rq => rq.receiveHead a

/-- An unfragmented packet that appears to be ours: it waits in the queue if it
cannot be decoded yet. -/
def receiveWhole : Switch Path × List (Effect Path Peer) :=
  if protoMaxPacketLength < a.data.length then
    -- the constructor of the packet throws
    (s, [])
  else
    let packet := ⟨a.data, a.now, a.path, false⟩
    let (done, packet') := a.tryDecode packet
    if done then
      (s, [.decodeWhole packet])
    else
      -- `_nextRXQueueEntry`
      let i := slot s.rxQueuePtr
      let rq :=
        { s.rxQueue i with
          flowId := qosNoFlow, timestamp := a.now, packetId := Packet.packetId packet'.data,
          frag0 := packet', totalFragments := 1, haveFragments := 1, complete := true }
      ({ s with rxQueuePtr := s.rxQueuePtr + 1 }.setEntry i rq, [.decodeWhole packet])

/-- `Switch::onRemotePacket` of the node with the address `self`. -/
def onRemotePacket (self : Address) : Switch Path × List (Effect Path Peer) :=
  if protoMinFragmentLength < a.data.length then
    if byteAt a.data idxFragmentIndicator = addressReservedPrefix then
      -- Handle fragment
      if protoMaxPacketLength < a.data.length then
        -- the constructor of the fragment throws
        (s, [])
      else if Fragment.destination a.data ≠ self then
        (s, relayFragment a)
      else
        receiveFragment s a
    else if protoMinPacketLength ≤ a.data.length then
      -- Handle packet head
      if Packet.source a.data = self then
        (s, [])
      else if Packet.destination a.data ≠ self then
        relayHead s a
      else if Packet.fragmented a.data then
        receiveHead s a
      else
        receiveWhole s a
    else
      (s, [])
  else
    (s, [])

/-- The loop over the receive queue in `doAnythingWaitingForPeer` and
`doTimerTasks`. -/
def retryQueue (now : ℤ) (tryDecode : IncomingPacket Path → Bool × IncomingPacket Path) :
    Switch Path × List (Effect Path Peer) :=
  ({ s with rxQueue := fun i => ((s.rxQueue i).retry now tryDecode).1 },
    (List.finRange rxQueueSize).filterMap fun i =>
      ((s.rxQueue i).retry now tryDecode).2.map .decodeAgain)

end Switch

/-! ### The cases of `onRemotePacket` -/

/-- What a datagram is to the node it reached. -/
inductive DatagramKind
  | ignored
  | relayFragment
  | fragment
  | relayHead
  | head
  | whole
  deriving DecidableEq, Repr

/-- A fragment number and total that appear basically sane. -/
def saneFragment (data : Bytes) : Prop :=
  Fragment.totalFragments data ≤ maxPacketFragments ∧
    Fragment.fragmentNumber data < maxPacketFragments ∧
    0 < Fragment.fragmentNumber data ∧ 1 < Fragment.totalFragments data

instance (data : Bytes) : Decidable (saneFragment data) := by
  unfold saneFragment
  infer_instance

/-- The case of `onRemotePacket` a datagram falls into. -/
def datagramKind (self : Address) (data : Bytes) : DatagramKind :=
  if protoMinFragmentLength < data.length then
    if byteAt data idxFragmentIndicator = addressReservedPrefix then
      if protoMaxPacketLength < data.length then .ignored
      else if Fragment.destination data ≠ self then .relayFragment
      else if saneFragment data then .fragment else .ignored
    else if protoMinPacketLength ≤ data.length then
      if Packet.source data = self then .ignored
      else if Packet.destination data ≠ self then .relayHead
      else if Packet.fragmented data then .head
      else if protoMaxPacketLength < data.length then .ignored else .whole
    else .ignored
  else .ignored

namespace Switch

variable (s : Switch Path) (a : Arrival Path Peer)

/-- `onRemotePacket` is a case distinction on what the datagram is. -/
theorem onRemotePacket_eq (self : Address) :
    s.onRemotePacket a self =
      match datagramKind self a.data with
      | .ignored => (s, [])
      | .relayFragment => (s, relayFragment a)
      | .fragment =>
          s.updateRXQueueEntry (Packet.packetId a.data) fun rq => rq.receiveFragment a
      | .relayHead => relayHead s a
      | .head => s.updateRXQueueEntry (Packet.packetId a.data) fun rq => rq.receiveHead a
      | .whole => receiveWhole s a := by
  unfold onRemotePacket datagramKind
  split_ifs with h₁ h₂ h₃ h₄ h₅ h₆ h₇ h₈ h₉ h₁₀ <;> try rfl
  · exact if_pos h₅
  · exact if_neg h₅
  · exact if_pos h₁₀

/-- A whole packet fits in the buffer. -/
theorem fits_of_whole {self : Address} {data : Bytes} (h : datagramKind self data = .whole) :
    data.length ≤ protoMaxPacketLength := by
  unfold datagramKind at h
  split_ifs at h with h₁ h₂ h₃ h₄ h₅ h₆ h₇ h₈ h₉ h₁₀
  exact not_lt.mp h₁₀

@[simp] theorem findRXQueueEntry_rxQueue (id : BitVec 64) :
    (s.findRXQueueEntry id).2.rxQueue = s.rxQueue := by
  unfold findRXQueueEntry
  split <;> rfl

@[simp] theorem setEntry_same (i : Fin rxQueueSize) (rq : RXQueueEntry Path) :
    (s.setEntry i rq).rxQueue i = rq :=
  Function.update_self _ _ _

theorem setEntry_ne {i j : Fin rxQueueSize} (h : j ≠ i) (rq : RXQueueEntry Path) :
    (s.setEntry i rq).rxQueue j = s.rxQueue j :=
  Function.update_of_ne h _ _

/-- Relaying a fragment decodes nothing. -/
theorem decode_notMem_relayFragment (packet : IncomingPacket Path) :
    Effect.decodeAssembled packet ∉ relayFragment a ∧
      Effect.decodeWhole packet ∉ relayFragment a := by
  unfold relayFragment
  dsimp only
  split_ifs <;> simp

theorem decode_notMem_introduceSource (source : Address) (peer : Peer)
    (packet : IncomingPacket Path) :
    Effect.decodeAssembled packet ∉ introduceSource a source peer ∧
      Effect.decodeWhole packet ∉ introduceSource a source peer := by
  simp [introduceSource]

/-- Relaying a head decodes nothing. -/
theorem decode_notMem_relayHead (packet : IncomingPacket Path) :
    Effect.decodeAssembled packet ∉ (relayHead s a).2 ∧
      Effect.decodeWhole packet ∉ (relayHead s a).2 := by
  have hi := fun source peer => decode_notMem_introduceSource a source peer packet
  unfold relayHead
  dsimp only
  repeat' split
  all_goals simp [hi]

/-- Relaying a head leaves the queue alone. -/
@[simp] theorem relayHead_rxQueue : (relayHead s a).1.rxQueue = s.rxQueue := by
  unfold relayHead shouldUnite
  dsimp only
  split_ifs <;> first | rfl | (split <;> first | rfl | (split <;> rfl))

end Switch

/-! ### Bits -/

namespace RXQueueEntry

theorem getLsbD_bit (no : ℕ) {f : ℕ} (hf : f < 32) : (bit no).getLsbD f = decide (no = f) := by
  have h : bit no = BitVec.twoPow 32 no := rfl
  rw [h, BitVec.getLsbD_twoPow]
  by_cases he : no = f
  · simp [he, hf]
  · simp [he]

theorem getLsbD_or_bit (h : BitVec 32) (no : ℕ) {f : ℕ} (hf : f < 32) :
    (h ||| bit no).getLsbD f = (h.getLsbD f || decide (no = f)) := by
  rw [BitVec.getLsbD_or, getLsbD_bit no hf]

/-- The test of a bit in `haveFragments`. -/
theorem and_bit_eq_zero (h : BitVec 32) {no : ℕ} (hno : no < 32) :
    h &&& bit no = 0 ↔ h.getLsbD no = false := by
  constructor
  · intro he
    have hb := congrArg (fun v => BitVec.getLsbD v no) he
    simp only [BitVec.getLsbD_and, getLsbD_bit no hno, decide_true, Bool.and_true] at hb
    rw [hb]
    exact BitVec.getLsbD_zero
  · intro hb
    apply BitVec.eq_of_getLsbD_eq
    intro i hi
    rw [BitVec.getLsbD_and, getLsbD_bit no hi]
    by_cases hin : no = i
    · subst hin
      rw [hb]
      exact BitVec.getLsbD_zero.symm
    · rw [decide_eq_false hin, Bool.and_false]
      exact BitVec.getLsbD_zero.symm

/-- `countBits` on the words whose bits are all below `n`: the count is `n` exactly
when all of them are set. -/
theorem countBits_low : ∀ w : BitVec 7, ∀ n < 8, (∀ f < 7, n ≤ f → w.getLsbD f = false) →
    (countBits (w.setWidth 32) = BitVec.ofNat 32 n ↔ ∀ f < n, w.getLsbD f = true) := by
  decide +kernel

/-- The count of the parts reaches the total exactly when all parts are there, if
there are no parts beyond the total. -/
theorem countBits_eq_iff {h : BitVec 32} {n : ℕ} (hn : n ≤ maxPacketFragments)
    (hb : ∀ f, n ≤ f → h.getLsbD f = false) :
    countBits h = BitVec.ofNat 32 n ↔ ∀ f < n, h.getLsbD f = true := by
  have hn7 : n ≤ 7 := hn
  have hlow : (h.setWidth 7).setWidth 32 = h := by
    apply BitVec.eq_of_getLsbD_eq
    intro i hi
    rw [BitVec.getLsbD_setWidth, BitVec.getLsbD_setWidth, decide_eq_true hi, Bool.true_and]
    by_cases h7 : i < 7
    · rw [decide_eq_true h7, Bool.true_and]
    · rw [hb i (by omega), Bool.and_false]
  have hbit : ∀ f < 7, (h.setWidth 7).getLsbD f = h.getLsbD f := by
    intro f hf
    rw [BitVec.getLsbD_setWidth, decide_eq_true hf, Bool.true_and]
  have key := countBits_low (h.setWidth 7) n (by omega)
    (fun f hf hnf => (hbit f hf).trans (hb f hnf))
  rw [hlow] at key
  exact key.trans ⟨fun hall f hf => (hbit f (by omega)).symm.trans (hall f hf),
    fun hall f hf => (hbit f (by omega)).trans (hall f hf)⟩

theorem initHead_of_fits (rq : RXQueueEntry Path) {a : Arrival Path Peer}
    (h : a.data.length ≤ protoMaxPacketLength) :
    rq.initHead a = some { rq with frag0 := ⟨a.data, a.now, a.path, false⟩ } :=
  if_neg (not_lt.mpr h)

/-- The entry initialised for the packet of a fragment. -/
def startFragment (rq : RXQueueEntry Path) (a : Arrival Path Peer) : RXQueueEntry Path :=
  { rq with
    flowId := qosNoFlow, timestamp := a.now, packetId := Packet.packetId a.data
    frags := Function.update rq.frags (Fragment.fragmentNumber a.data - 1) a.data
    totalFragments := Fragment.totalFragments a.data
    haveFragments := bit (Fragment.fragmentNumber a.data), complete := false }

/-- The entry with a fragment it did not have. -/
def addFragment (rq : RXQueueEntry Path) (a : Arrival Path Peer) : RXQueueEntry Path :=
  { rq with
    frags := Function.update rq.frags (Fragment.fragmentNumber a.data - 1) a.data
    totalFragments := Fragment.totalFragments a.data
    haveFragments := rq.haveFragments ||| bit (Fragment.fragmentNumber a.data) }

/-- The entry initialised for the packet of a head. -/
def startHead (rq : RXQueueEntry Path) (a : Arrival Path Peer) : RXQueueEntry Path :=
  { rq with
    flowId := qosNoFlow, timestamp := a.now, packetId := Packet.packetId a.data
    frag0 := ⟨a.data, a.now, a.path, false⟩, totalFragments := 0
    haveFragments := bit 0, complete := false }

/-- The entry with another head. -/
def keepHead (rq : RXQueueEntry Path) (a : Arrival Path Peer) : RXQueueEntry Path :=
  { rq with frag0 := ⟨a.data, a.now, a.path, false⟩ }

/-- The entry with the head it did not have. -/
def addHead (rq : RXQueueEntry Path) (a : Arrival Path Peer) : RXQueueEntry Path :=
  { rq with
    frag0 := ⟨a.data, a.now, a.path, false⟩
    haveFragments := rq.haveFragments ||| bit 0 }

/-- The cases of `receiveFragment`, with the bits named. -/
theorem receiveFragment_eq (rq : RXQueueEntry Path) (a : Arrival Path Peer)
    (hno : Fragment.fragmentNumber a.data < 32) :
    rq.receiveFragment a =
      if rq.packetId ≠ Packet.packetId a.data then (rq.startFragment a, none)
      else if rq.haveFragments.getLsbD (Fragment.fragmentNumber a.data) = false then
        if countBits (rq.addFragment a).haveFragments
            = BitVec.ofNat 32 (Fragment.totalFragments a.data) then
          (rq.addFragment a).assemble (Fragment.totalFragments a.data) a.tryDecode
        else
          (rq.addFragment a, none)
      else
        (rq, none) := by
  have hbit := and_bit_eq_zero rq.haveFragments hno
  unfold receiveFragment
  dsimp only
  by_cases hp : rq.packetId ≠ Packet.packetId a.data
  · rw [if_pos hp]
    exact if_pos hp
  · rw [if_neg hp]
    refine (if_neg hp).trans ?_
    by_cases hb : rq.haveFragments.getLsbD (Fragment.fragmentNumber a.data) = false
    · rw [if_pos hb, if_pos (hbit.mpr hb)]
      rfl
    · rw [if_neg hb, if_neg fun h => hb (hbit.mp h)]

/-- The cases of `receiveHead` for a head that fits in the buffer, with the bits
named. -/
theorem receiveHead_eq (rq : RXQueueEntry Path) {a : Arrival Path Peer}
    (hfits : a.data.length ≤ protoMaxPacketLength) :
    rq.receiveHead a =
      if rq.packetId ≠ Packet.packetId a.data then (rq.startHead a, none)
      else if rq.haveFragments.getLsbD 0 = false then
        if 1 < rq.totalFragments then
          if countBits (rq.addHead a).haveFragments = BitVec.ofNat 32 rq.totalFragments then
            (rq.addHead a).assemble rq.totalFragments a.tryDecode
          else
            (rq.addHead a, none)
        else
          (rq.keepHead a, none)
      else
        (rq, none) := by
  have hbit : rq.haveFragments &&& 1 = 0 ↔ rq.haveFragments.getLsbD 0 = false :=
    and_bit_eq_zero rq.haveFragments (show 0 < 32 by decide)
  unfold receiveHead
  dsimp only
  rw [initHead_of_fits _ hfits, initHead_of_fits _ hfits, initHead_of_fits _ hfits]
  by_cases hp : rq.packetId ≠ Packet.packetId a.data
  · rw [if_pos hp, if_pos hp]
    rfl
  · rw [if_neg hp, if_neg hp]
    by_cases hb : rq.haveFragments.getLsbD 0 = false
    · rw [if_pos hb, if_pos (hbit.mpr hb)]
      rfl
    · rw [if_neg hb, if_neg fun h => hb (hbit.mp h)]

/-- Appending payloads with room for them. -/
theorem appendPayloads_ok (frags : ℕ → Bytes) (fs : List ℕ) (b : Bytes)
    (h : (b ++ fs.flatMap fun f => Fragment.payload (frags (f - 1))).length
      ≤ protoMaxPacketLength) :
    appendPayloads frags fs b =
      .ok (b ++ fs.flatMap fun f => Fragment.payload (frags (f - 1))) := by
  induction fs generalizing b with
  | nil => simp [appendPayloads]
  | cons f fs ih =>
      rw [List.flatMap_cons, ← List.append_assoc] at h ⊢
      have hroom :
          ¬ protoMaxPacketLength < b.length + (Fragment.payload (frags (f - 1))).length := by
        simp only [List.length_append] at h
        omega
      rw [appendPayloads, if_neg hroom, ih _ h]

end RXQueueEntry

/-! ### Finding an entry -/

/-- The search goes through every slot of the ring. -/
theorem exists_slot_eq (ptr : BitVec 32) (i : Fin rxQueueSize) :
    ∃ k ∈ List.range' 1 rxQueueSize, slot (ptr - BitVec.ofNat 32 k) = i := by
  have hi : i.val < 32 := i.isLt
  have hp := ptr.isLt
  set k := if i.val < ptr.toNat % 32 then ptr.toNat % 32 - i.val else ptr.toNat % 32 + 32 - i.val
    with hk
  have hk32 : 1 ≤ k ∧ k ≤ 32 := by
    rw [hk]
    split_ifs <;> omega
  refine ⟨k, List.mem_range'_1.mpr ⟨hk32.1, by simp only [rxQueueSize]; omega⟩, Fin.ext ?_⟩
  have hsub : (ptr - BitVec.ofNat 32 k).toNat = (2 ^ 32 - k + ptr.toNat) % 2 ^ 32 := by
    rw [BitVec.toNat_sub, BitVec.toNat_ofNat, Nat.mod_eq_of_lt (show k < 2 ^ 32 by omega)]
  show (ptr - BitVec.ofNat 32 k).toNat % 32 = i.val
  rw [hsub]
  clear_value k
  split_ifs at hk <;> omega

namespace Switch

variable (s : Switch Path)

/-- The entry in slot `i` is in use for the packet `id`. -/
def Live (id : BitVec 64) (i : Fin rxQueueSize) : Prop :=
  (s.rxQueue i).packetId = id ∧ (s.rxQueue i).timestamp ≠ 0

/-- **What finding an entry comes to**: an entry in use for the packet, or, when
there is none, the next slot of the ring. -/
theorem findRXQueueEntry_cases (id : BitVec 64) :
    (∃ i, s.Live id i ∧ s.findRXQueueEntry id = (i, s)) ∨
      ((∀ i, ¬ s.Live id i) ∧ s.findRXQueueEntry id
        = (slot s.rxQueuePtr, { s with rxQueuePtr := s.rxQueuePtr + 1 })) := by
  have hmatch : ∀ k, s.matchesEntry id k = true ↔
      s.Live id (slot (s.rxQueuePtr - BitVec.ofNat 32 k)) := by
    intro k
    simp only [matchesEntry, Live, Bool.and_eq_true, beq_iff_eq, bne_iff_ne]
  unfold findRXQueueEntry
  rcases hf : (List.range' 1 rxQueueSize).find? (s.matchesEntry id) with - | k
  · refine Or.inr ⟨fun i hlive => ?_, rfl⟩
    obtain ⟨k, hk, hslot⟩ := exists_slot_eq s.rxQueuePtr i
    rw [List.find?_eq_none] at hf
    refine hf k hk ((hmatch k).mpr ?_)
    rwa [hslot]
  · exact Or.inl ⟨_, (hmatch k).mp (List.find?_some hf), rfl⟩

theorem findRXQueueEntry_of_none {id : BitVec 64} (h : ∀ i, ¬ s.Live id i) :
    s.findRXQueueEntry id = (slot s.rxQueuePtr, { s with rxQueuePtr := s.rxQueuePtr + 1 }) := by
  rcases s.findRXQueueEntry_cases id with ⟨i, hlive, -⟩ | ⟨-, heq⟩
  · exact absurd hlive (h i)
  · exact heq

theorem findRXQueueEntry_of_unique {id : BitVec 64} {i : Fin rxQueueSize} (hi : s.Live id i)
    (h : ∀ j, s.Live id j → j = i) : s.findRXQueueEntry id = (i, s) := by
  rcases s.findRXQueueEntry_cases id with ⟨j, hlive, heq⟩ | ⟨hnone, -⟩
  · rw [heq, h j hlive]
  · exact absurd hi (hnone i)

end Switch

/-! ### What an event leaves alone -/

namespace RXQueueEntry

@[simp] theorem assemble_packetId (rq : RXQueueEntry Path) (total : ℕ)
    (tryDecode : IncomingPacket Path → Bool × IncomingPacket Path) :
    (rq.assemble total tryDecode).1.packetId = rq.packetId := by
  unfold assemble
  split
  · rfl
  · dsimp only
    split_ifs <;> rfl

/-- The entry for a fragment is for the fragment's packet. -/
theorem receiveFragment_packetId (rq : RXQueueEntry Path) (a : Arrival Path Peer) :
    (rq.receiveFragment a).1.packetId = Packet.packetId a.data := by
  unfold receiveFragment
  dsimp only
  split_ifs with h₁ h₂ h₃
  · rfl
  · rw [assemble_packetId]
    exact not_not.mp h₁
  · exact not_not.mp h₁
  · exact not_not.mp h₁

/-- The entry for a head is for the head's packet. -/
theorem receiveHead_packetId (rq : RXQueueEntry Path) (a : Arrival Path Peer) :
    (rq.receiveHead a).1.packetId = Packet.packetId a.data := by
  have hinit : ∀ (q : RXQueueEntry Path) q', q.initHead a = some q' → q'.packetId = q.packetId := by
    intro q q' h
    unfold initHead at h
    split_ifs at h
    cases h
    rfl
  unfold receiveHead
  dsimp only
  split_ifs with h₁ h₂ h₃
  · split
    · rfl
    · next hq => exact hinit _ _ hq
  · have hid := not_not.mp h₁
    split
    · exact hid
    · next hq =>
        have hq' := (hinit _ _ hq).trans hid
        split_ifs
        · rwa [assemble_packetId]
        · exact hq'
  · have hid := not_not.mp h₁
    rcases hq : rq.initHead a with - | q
    · exact hid
    · exact (hinit _ _ hq).trans hid
  · exact not_not.mp h₁

end RXQueueEntry

/-- What matters of the queue for the packet `id` is the same: no entry begins to be
in use for it, and an incomplete entry of it is untouched. -/
structure KeptFor (id : BitVec 64) (s t : Switch Path) : Prop where
  packetId : ∀ j, (t.rxQueue j).packetId = (s.rxQueue j).packetId
  live : ∀ j, (s.rxQueue j).packetId = id → (t.rxQueue j).timestamp ≠ 0 →
    (s.rxQueue j).timestamp ≠ 0
  entry : ∀ j, (s.rxQueue j).packetId = id → (s.rxQueue j).complete = false →
    t.rxQueue j = s.rxQueue j

theorem KeptFor.of_rxQueue_eq {id : BitVec 64} {s t : Switch Path} (h : t.rxQueue = s.rxQueue) :
    KeptFor id s t := by
  refine ⟨fun j => by rw [h], fun j _ ht => ?_, fun j _ _ => by rw [h]⟩
  rwa [h] at ht

namespace Switch

theorem add_one_ne (x : BitVec 32) : x + 1 ≠ x := by
  intro h
  have hone := BitVec.add_sub_cancel 1 x
  rw [BitVec.add_comm, h, BitVec.sub_self] at hone
  exact absurd hone (by decide)

/-- A datagram of another packet that allocates no entry. -/
theorem updateRXQueueEntry_keptFor {s : Switch Path} {id id' : BitVec 64} (hne : id' ≠ id)
    {f : RXQueueEntry Path → RXQueueEntry Path × Option (IncomingPacket Path)}
    (hf : ∀ rq, (f rq).1.packetId = id')
    (hptr : (s.updateRXQueueEntry id' f : Switch Path × List (Effect Path Peer)).1.rxQueuePtr =
      s.rxQueuePtr) :
    KeptFor id s (s.updateRXQueueEntry id' f : Switch Path × List (Effect Path Peer)).1 := by
  rcases s.findRXQueueEntry_cases id' with ⟨i, hlive, heq⟩ | ⟨-, heq⟩
  · have hother : ∀ j, (s.rxQueue j).packetId = id →
        (s.updateRXQueueEntry id' f : Switch Path × List (Effect Path Peer)).1.rxQueue j
          = s.rxQueue j := by
      intro j hj
      have hji : j ≠ i := by
        rintro rfl
        exact hne (hlive.1.symm.trans hj)
      simp only [updateRXQueueEntry, heq]
      exact s.setEntry_ne hji _
    refine ⟨fun j => ?_, fun j hj ht => by rwa [hother j hj] at ht, fun j hj _ => hother j hj⟩
    by_cases hji : j = i
    · subst hji
      simp only [updateRXQueueEntry, heq, setEntry_same, hf, hlive.1]
    · simp only [updateRXQueueEntry, heq]
      rw [s.setEntry_ne hji]
  · -- the pointer of the ring would have moved
    simp only [updateRXQueueEntry, heq, setEntry] at hptr
    exact absurd hptr (add_one_ne s.rxQueuePtr)

end Switch

/-! ### Runs -/

/-- The packet that a slot is constructed with. -/
def blankPacket : IncomingPacket Unit := ⟨List.replicate protoMinPacketLength 0, 0, (), false⟩

/-- A switch just started: no slot is in use, and the fragments are empty. -/
def startedSwitch : Switch Unit where
  rxQueue := fun _ => ⟨0, 0, blankPacket, fun _ => [], 0, 0, false, 0⟩
  rxQueuePtr := 0
  lastUniteAttempt := fun _ => 0

/-- A datagram that arrives at a node without peers, which can decode anything. -/
def loneArrival (path : Path) (data : Bytes) : Arrival Path Peer where
  data := data
  now := 1
  path := path
  amUpstream := false
  trustEstablished := false
  getPeer := fun _ => none
  getUpstreamPeer := none
  address := fun _ => 0
  sendDirect := fun _ _ _ => false
  tryDecode := fun packet => (true, packet)

/-- What happens to the switch. -/
inductive SwitchEvent (Path Peer : Type*)
  | remotePacket (a : Arrival Path Peer)
  | retryQueue (now : ℤ) (tryDecode : IncomingPacket Path → Bool × IncomingPacket Path)

/-- The switch of the node with the address `self`. -/
def switchMachine (Path Peer : Type*) (self : Address) :
    Machine (Switch Path) (SwitchEvent Path Peer) (Effect Path Peer) where
  step s
    | .remotePacket a => s.onRemotePacket a self
    | .retryQueue now tryDecode => s.retryQueue now tryDecode

/-- **What other packets leave alone**: an event that brings no datagram of the
packet `id` and allocates no entry keeps all that matters of the queue for it. -/
theorem step_keptFor {self : Address} {s : Switch Path} {e : SwitchEvent Path Peer}
    {id : BitVec 64} (hid : ∀ a, e = .remotePacket a → Packet.packetId a.data ≠ id)
    (hptr : ((switchMachine Path Peer self).step s e).1.rxQueuePtr = s.rxQueuePtr) :
    KeptFor id s ((switchMachine Path Peer self).step s e).1 := by
  cases e with
  | retryQueue now tryDecode =>
      -- an entry that is complete is tried again, and no other
      refine ⟨fun j => ?_, fun j _ ht => ?_, fun j _ hc => ?_⟩
      · show ((s.rxQueue j).retry now tryDecode).1.packetId = _
        unfold RXQueueEntry.retry
        dsimp only
        split_ifs <;> rfl
      · intro hz
        refine ht ?_
        show ((s.rxQueue j).retry now tryDecode).1.timestamp = 0
        unfold RXQueueEntry.retry
        rw [if_neg fun h => h.1 hz]
        exact hz
      · show ((s.rxQueue j).retry now tryDecode).1 = s.rxQueue j
        unfold RXQueueEntry.retry
        rw [if_neg fun h => by rw [hc] at h; exact absurd h.2 (by decide)]
  | remotePacket a =>
      have hne := hid a rfl
      have hstep : (switchMachine Path Peer self).step s (.remotePacket a)
          = s.onRemotePacket a self := rfl
      rw [hstep, Switch.onRemotePacket_eq] at hptr ⊢
      rcases hk : datagramKind self a.data with - | - | - | - | - | - <;> rw [hk] at hptr <;>
        dsimp only at hptr ⊢
      · -- ignored
        exact KeptFor.of_rxQueue_eq rfl
      · -- relayFragment
        exact KeptFor.of_rxQueue_eq rfl
      · -- fragment
        exact Switch.updateRXQueueEntry_keptFor hne
          (fun rq => RXQueueEntry.receiveFragment_packetId rq a) hptr
      · -- relayHead
        exact KeptFor.of_rxQueue_eq (Switch.relayHead_rxQueue s a)
      · -- head
        exact Switch.updateRXQueueEntry_keptFor hne
          (fun rq => RXQueueEntry.receiveHead_packetId rq a) hptr
      · -- whole
        unfold Switch.receiveWhole at hptr ⊢
        rw [if_neg (not_lt.mpr (Switch.fits_of_whole hk))] at hptr ⊢
        dsimp only at hptr ⊢
        by_cases hdone : (a.tryDecode ⟨a.data, a.now, a.path, false⟩).1 = true
        · rw [if_pos hdone]
          exact KeptFor.of_rxQueue_eq rfl
        · rw [if_neg hdone] at hptr
          exact absurd hptr (Switch.add_one_ne s.rxQueuePtr)

end ZGalaxy
