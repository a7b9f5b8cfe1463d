/-
ZGalaxy/FrameExtents.lean

Where the frame of a packet begins and ends.

The handlers of `FRAME`, `EXT_FRAME` and `MULTICAST_FRAME` compute with unsigned 32-bit lengths:
behind an inline certificate and optional fields comes the frame, and its length is what is left of
the packet.  Here they are followed for these numbers alone, with a log of every field whose bounds
were checked, every difference, every frame that is passed on, and every byte that is read to find
the flow.  What the node and the network answer is left open.

Main result: `extents_inside`, that whatever a handler comes to, its log is in order: no sum and no
difference has wrapped, and each frame is the end of the packet.
-/
import ZGalaxy.Bridging
import ZGalaxy.Logged

namespace ZGalaxy

open ByteList

/-- A packet in its buffer. -/
structure PacketBuffer where
  bytes : Bytes
  fits : bytes.length ≤ protoMaxPacketLength

/-- `ZT_MAX_MTU`. -/
def maxMtu : ℕ := 10000

/-- The sum of two unsigned 32-bit numbers. -/
def add32 (a b : ℕ) : ℕ := (a + b) % 4294967296

/-- The difference of two unsigned 32-bit numbers. -/
def sub32 (a b : ℕ) : ℕ := (a + (4294967296 - b % 4294967296)) % 4294967296

/-- Who gets a frame. -/
inductive FrameUser
  | filter
  | tap
  | flowId
  /-- `Multicaster::send` -/
  | replicator
deriving DecidableEq

/-- What is noted of a run. -/
inductive FrameEvent
  /-- `Buffer::field` has found that the field is inside the packet -/
  | field (i l : ℕ)
  | difference (a b : ℕ)
  /-- the frame of `len` bytes from `ptr` on is passed on -/
  | frame (user : FrameUser) (ptr len : ℕ)
  /-- a byte of the packet is read through a pointer -/
  | read (i : ℕ)
deriving DecidableEq

/-- What a handler does, which ends without an answer where it throws, and with `none` where a loop
has not ended after the turns it is given. -/
abbrev FrameM := Logged FrameEvent (Option ZTException)

/-- What the handlers use of a network. -/
structure ExtentNetwork where
  gate : Bool
  mac : Mac
  /-- the Ethernet address of the peer -/
  peerMac : Mac
  multicastLimit : UInt32
  /-- whether the peer may bridge, and whether this node may -/
  permitsBridging : Bool
  permitsOwnBridging : Bool
  isMulticastReplicator : Bool
  filterIncomingPacket (source dest : Mac) (frameData frameLen etherType : ℕ) : ℤ

/-- What the handlers use of the node and of the peer. -/
structure ExtentEnvironment where
  flowHashingSupported : Bool
  networks : ℕ → Option ExtentNetwork

namespace FrameExtents

variable (p : Bytes)

/-! ### Reading the packet -/

/-- `Buffer::at`, for an unsigned integer of `n` bytes. -/
def uintAt (n i : ℕ) : FrameM ℕ :=
  if p.length < i + n then Logged.stop (some .outOfBounds) else pure (beNat (slice p i n))

/-- `Buffer::operator[]`. -/
def index (i : ℕ) : FrameM UInt8 :=
  if p.length ≤ i then Logged.stop (some .outOfBounds) else pure (byteAt p i)

/-- `Buffer::field`: where it begins.  Offset and length are added in 32 bits. -/
def field (i l : ℕ) : FrameM ℕ :=
  if p.length < add32 i l then Logged.stop (some .outOfBounds)
  else do
    Logged.tell (.field i l)
    pure i

/-- What is left of the packet from `i` on. -/
def left (i : ℕ) : FrameM ℕ := do
  Logged.tell (.difference p.length i)
  pure (sub32 p.length i)

/-- A byte behind a pointer. -/
def read (i : ℕ) : FrameM UInt8 := do
  Logged.tell (.read i)
  pure (byteAt p i)

/-- `MAC(bits, 6)`. -/
def macAt (i : ℕ) : Mac := BitVec.ofNat 48 (beNat (slice p i 6))

/-! ### The flow of a frame -/

/-- The flow of the ports that stand at `pos` in the frame. -/
def ports (ptr pos proto : ℕ) : FrameM (Option ℕ) := do
  let src₁ ← read p (ptr + pos)
  let src₀ ← read p (ptr + (pos + 1))
  let dst₁ ← read p (ptr + (pos + 2))
  let dst₀ ← read p (ptr + (pos + 3))
  pure (some ((dst₁.toNat * 256 + dst₀.toNat) ^^^ (src₁.toNat * 256 + src₀.toNat) ^^^ proto))

/-- The loop of `_ipv6GetPayload`, of which `n` turns are made at most: `pos` and `proto` as it
leaves them, whatever it returns. -/
def ipv6Walk (ptr frameLen : ℕ) : (n pos proto : ℕ) → FrameM (ℕ × ℕ)
  | 0, _, _ => Logged.stop none
  | n + 1, pos, proto =>
      if pos ≤ frameLen then
        if proto = 0 ∨ proto = 43 ∨ proto = 60 ∨ proto = 135 then
          if frameLen < add32 pos 8 then pure (pos, proto)
          else do
            let next ← read p (ptr + pos)
            let words ← read p (ptr + (pos + 1))
            ipv6Walk ptr frameLen n (add32 pos (words.toNat * 8 + 8)) next.toNat
        else pure (pos, proto)
      else pure (pos, proto)

/-- The flow of a frame over IPv4. -/
def flowOfIPv4 (ptr frameLen : ℕ) : FrameM (Option ℕ) := do
  let proto ← read p (ptr + 9)
  let first ← read p ptr
  let headerLen := 4 * (first.toNat % 16)
  if Frame.hasPorts proto.toNat ∧ headerLen + 4 < frameLen then ports p ptr headerLen proto.toNat
  else pure none

/-- The flow of a frame over IPv6. -/
def flowOfIPv6 (ptr frameLen : ℕ) : FrameM (Option ℕ) := do
  let proto ← read p (ptr + 6)
  let payload ← ipv6Walk p ptr frameLen (frameLen + 1) 40 proto.toNat
  if Frame.hasPorts payload.2 ∧ add32 payload.1 4 < frameLen then
    ports p ptr payload.1 payload.2
  else pure none

/-- The flow of the frame of `frameLen` bytes at `ptr`. -/
def flowOf (etherType ptr frameLen : ℕ) : FrameM (Option ℕ) := do
  Logged.tell (.frame .flowId ptr frameLen)
  if etherType = Frame.etherTypeIPv4 ∧ 20 ≤ frameLen then flowOfIPv4 p ptr frameLen
  else if etherType = Frame.etherTypeIPv6 ∧ 40 ≤ frameLen then flowOfIPv6 p ptr frameLen
  else pure none

/-- The flow of a packet whose frame is said to begin at `idxPayload`, where the peer takes part in
hashing flows. -/
def flowId (RR : ExtentEnvironment) (idxEtherType idxPayload : ℕ) : FrameM (Option ℕ) :=
  if RR.flowHashingSupported = true ∧ idxPayload < p.length then do
    let etherType ← uintAt p 2 idxEtherType
    let frameLen ← left p idxPayload
    flowOf p etherType idxPayload frameLen
  else pure none

/-! ### Certificates -/

/-- The qualifiers of a certificate: `n` more after `count`. -/
def comQualifiers : (n count lastId i : ℕ) → FrameM ℕ
  | 0, _, _, i => pure i
  | n + 1, count, lastId, i => do
      let qid ← uintAt p 8 i
      if qid < lastId ∨ comMaxQualifiers ≤ count then Logged.stop (some .invalidSerializedData)
      else do
        let _ ← uintAt p 8 (add32 i 8)
        let _ ← uintAt p 8 (add32 i 16)
        comQualifiers n (count + 1) qid (add32 i 24)

/-- The signature of a certificate, where it has a signer. -/
def comSignature (i : ℕ) : FrameM ℕ := do
  let signer ← field p i addressLength
  if beNat (slice p signer addressLength) = 0 then pure (add32 i addressLength)
  else do
    let _ ← field p (add32 i addressLength) eccSignatureLen
    pure (add32 (add32 i addressLength) eccSignatureLen)

/-- The length that `CertificateOfMembership::deserialize` returns. -/
def comDeserialize (startAt : ℕ) : FrameM ℕ := do
  let type ← index p startAt
  if type ≠ 1 then Logged.stop (some .invalidSerializedData)
  else do
    let numq ← uintAt p 2 (add32 startAt 1)
    let i ← comQualifiers p numq 0 0 (add32 startAt 3)
    let i ← comSignature p i
    Logged.tell (.difference i startAt)
    pure (sub32 i startAt)

/-- The length of the inline certificate, where the flags announce one. -/
def inlineCom (flags : UInt8) (startAt : ℕ) : FrameM ℕ :=
  if flags &&& 0x01 ≠ 0 then comDeserialize p startAt else pure 0

end FrameExtents

/-! ### The handlers -/

namespace ExtentNetwork

variable (n : ExtentNetwork)

/-- The switch of `_doEXT_FRAME` over the verdict: whether the frame gets to the tap. -/
def delivers (source dest : Mac) (verdict : ℤ) : Bool :=
  if verdict = 1 then
    if source ≠ n.peerMac then n.permitsBridging
    else if dest ≠ n.mac then
      if dest.isMulticast then n.multicastLimit ≠ 0 else n.permitsOwnBridging
    else true
  else verdict = 2

/-- A frame goes through the filter, and to the tap if it `goesOn`. -/
def filtered (source dest : Mac) (frameData frameLen etherType : ℕ) (goesOn : ℤ → Bool) :
    FrameM Unit := do
  Logged.tell (.frame .filter frameData frameLen)
  if goesOn (n.filterIncomingPacket source dest frameData frameLen etherType) then
    Logged.tell (.frame .tap frameData frameLen)
  else pure ()

end ExtentNetwork

namespace FrameExtents

variable (p : Bytes) (RR : ExtentEnvironment) (n : ExtentNetwork)

/-- `ZT_PROTO_VERB_FRAME_IDX_NETWORK_ID` and the two after it. -/
def frameIdxNetworkId : ℕ := 28
def frameIdxEtherType : ℕ := frameIdxNetworkId + 8
def frameIdxPayload : ℕ := frameIdxEtherType + 2

/-- The frame of a `FRAME`. -/
def frameBody : FrameM Unit :=
  if frameIdxPayload < p.length then do
    let etherType ← uintAt p 2 frameIdxEtherType
    let frameLen ← left p frameIdxPayload
    n.filtered n.peerMac n.mac frameIdxPayload frameLen etherType fun verdict => 0 < verdict
  else pure ()

/-- `IncomingPacket::_doFRAME`. -/
def doFrame : FrameM Bool := do
  let _ ← flowId p RR frameIdxEtherType frameIdxPayload
  let nwid ← uintAt p 8 frameIdxNetworkId
  match RR.networks nwid with
  | none => pure true
  | some n =>
      if n.gate then do
        frameBody p n
        pure true
      else pure false

/-- The frame of an `EXT_FRAME`, behind a certificate of `comLen` bytes. -/
def extFrameBody (comLen : ℕ) : FrameM Unit :=
  if ExtFramePacket.idxPayload < p.length then do
    let etherType ← uintAt p 2 (add32 comLen ExtFramePacket.idxEtherType)
    let to_ ← field p (add32 comLen ExtFramePacket.idxTo) 6
    let from_ ← field p (add32 comLen ExtFramePacket.idxFrom) 6
    let frameLen ← left p (add32 comLen ExtFramePacket.idxPayload)
    let frameData ← field p (add32 comLen ExtFramePacket.idxPayload) frameLen
    let source := macAt p from_
    let dest := macAt p to_
    if source = 0 ∨ source = n.mac then pure ()
    else n.filtered source dest frameData frameLen etherType (n.delivers source dest)
  else pure ()

/-- `IncomingPacket::_doEXT_FRAME`. -/
def doExtFrame : FrameM Bool := do
  let _ ← flowId p RR ExtFramePacket.idxEtherType ExtFramePacket.idxPayload
  let nwid ← uintAt p 8 ExtFramePacket.idxNetworkId
  match RR.networks nwid with
  | none => pure true
  | some n => do
      let flags ← index p ExtFramePacket.idxFlags
      let comLen ← inlineCom p flags ExtFramePacket.idxCom
      if n.gate then do
        extFrameBody p n comLen
        pure true
      else pure false

/-- `ZT_PROTO_VERB_MULTICAST_FRAME_IDX_NETWORK_ID` and those after it.  The certificate, the gather
limit, the source and the destination all begin behind the flags. -/
def multicastIdxNetworkId : ℕ := 28
def multicastIdxFlags : ℕ := multicastIdxNetworkId + 8
def multicastIdxFields : ℕ := multicastIdxFlags + 1
def multicastIdxDestAdi : ℕ := multicastIdxFields + 6
def multicastIdxEtherType : ℕ := multicastIdxDestAdi + 4
def multicastIdxFrame : ℕ := multicastIdxEtherType + 2

/-- The gather limit, where there is one, and the offset behind it. -/
def multicastGather (flags : UInt8) (offset : ℕ) : FrameM ℕ :=
  if flags &&& 0x02 ≠ 0 then do
    let _ ← uintAt p 4 (add32 offset multicastIdxFields)
    pure (add32 offset 4)
  else pure offset

/-- The source, where there is one, and the offset behind it. -/
def multicastSource (flags : UInt8) (offset : ℕ) : FrameM (Mac × ℕ) :=
  if flags &&& 0x04 ≠ 0 then do
    let i ← field p (add32 offset multicastIdxFields) 6
    pure (macAt p i, add32 offset 6)
  else pure (n.peerMac, offset)

/-- The frame is replicated, where this node is to do that. -/
def replicate (flags : UInt8) (frameData frameLen : ℕ) : FrameM Unit :=
  if flags &&& 0x08 ≠ 0 ∧ n.isMulticastReplicator = true then
    Logged.tell (.frame .replicator frameData frameLen)
  else pure ()

/-- What becomes of the frame of a `MULTICAST_FRAME`. -/
def multicastBody (flags : UInt8) (source dest : Mac) (etherType offset frameLen : ℕ) :
    FrameM Unit :=
  if n.multicastLimit = 0 then pure ()
  else if 0 < frameLen ∧ frameLen ≤ maxMtu then
    if !dest.isMulticast ∨ source = 0 ∨ source.isMulticast ∨ source = n.mac then pure ()
    else do
      let frameData ← field p (add32 offset multicastIdxFrame) frameLen
      replicate n flags frameData frameLen
      if source ≠ n.peerMac ∧ !n.permitsBridging then pure ()
      else n.filtered source dest frameData frameLen etherType fun verdict => 0 < verdict
  else pure ()

/-- The fields behind the certificate of a `MULTICAST_FRAME`. -/
def multicastFields (flags : UInt8) (offset : ℕ) : FrameM Unit := do
  let offset ← multicastGather p flags offset
  let source ← multicastSource p n flags offset
  let dest ← field p (add32 source.2 multicastIdxFields) 6
  let _ ← uintAt p 4 (add32 source.2 multicastIdxDestAdi)
  let etherType ← uintAt p 2 (add32 source.2 multicastIdxEtherType)
  let frameLen ← left p (add32 source.2 multicastIdxFrame)
  multicastBody p n flags source.1 (macAt p dest) etherType source.2 frameLen

/-- `IncomingPacket::_doMULTICAST_FRAME`, up to the reply to a gather limit. -/
def doMulticastFrame : FrameM Bool := do
  let nwid ← uintAt p 8 multicastIdxNetworkId
  let flags ← index p multicastIdxFlags
  match RR.networks nwid with
  | none => pure true
  | some n => do
      let offset ← inlineCom p flags multicastIdxFields
      if n.gate then do
        multicastFields p n flags offset
        pure true
      else pure false

end FrameExtents

/-! ### What is in order -/

/-- The event is in order in the packet `p`. -/
def FrameEvent.Inside (p : Bytes) : FrameEvent → Prop
  | .field i l => i + l < 4294967296 ∧ i + l ≤ p.length
  | .difference a b => b ≤ a
  | .frame _ ptr len => ptr + len = p.length
  | .read i => i < p.length

theorem add32_eq {a b : ℕ} (h : a + b < 4294967296) : add32 a b = a + b := Nat.mod_eq_of_lt h

theorem sub32_eq {a b : ℕ} (ha : a < 4294967296) (h : b ≤ a) : sub32 a b = a - b := by
  rw [sub32]
  omega

namespace FrameExtents

open Logged

variable {p : Bytes}

/-- What a step of a handler guarantees: it writes only what is in order, and every loop in it
ends. -/
abbrev Keeps (p : Bytes) {α : Type} (m : FrameM α) (Q : α → Prop) : Prop :=
  Guarantees (FrameEvent.Inside p) (fun e => e ≠ none) m Q

section Reading

theorem tell_keeps (o : FrameEvent) (h : o.Inside p) : Keeps p (tell o) fun _ => True :=
  Guarantees.tell h

theorem uintAt_keeps (n i : ℕ) : Keeps p (uintAt p n i) fun _ => i + n ≤ p.length := by
  refine Guarantees.ite (fun _ => Guarantees.stop (Option.some_ne_none _)) fun h => ?_
  exact Guarantees.pure (not_lt.mp h)

theorem index_keeps (i : ℕ) : Keeps p (index p i) fun _ => i < p.length := by
  refine Guarantees.ite (fun _ => Guarantees.stop (Option.some_ne_none _)) fun h => ?_
  exact Guarantees.pure (not_le.mp h)

/-- The bounds of a field are checked rightly if the sum does not wrap. -/
theorem field_keeps {i l : ℕ} (h : i + l < 4294967296) :
    Keeps p (field p i l) fun r => r = i ∧ i + l ≤ p.length := by
  refine Guarantees.ite (fun _ => Guarantees.stop (Option.some_ne_none _)) fun hle => ?_
  rw [add32_eq h, not_lt] at hle
  exact (tell_keeps (.field i l) ⟨h, hle⟩).bind fun _ _ => Guarantees.pure ⟨rfl, hle⟩

theorem read_keeps {i : ℕ} (h : i < p.length) : Keeps p (read p i) fun _ => True :=
  (tell_keeps (.read i) h).bind fun _ _ => Guarantees.pure trivial

variable (hp : p.length ≤ protoMaxPacketLength)
include hp

theorem length_lt : p.length < 4294960000 :=
  hp.trans_lt (Nat.lt_of_sub_pos (Nat.succ_pos _))

theorem left_keeps {i : ℕ} (h : i ≤ p.length) :
    Keeps p (left p i) fun r => i + r = p.length := by
  refine (tell_keeps (.difference p.length i) h).bind fun _ _ => Guarantees.pure ?_
  have hlt := length_lt hp
  rw [sub32_eq (by omega) h]
  omega

end Reading

section Flow

theorem ports_keeps {ptr pos : ℕ} (h : ptr + (pos + 3) < p.length) (proto : ℕ) :
    Keeps p (ports p ptr pos proto) fun _ => True := by
  refine (read_keeps (by omega)).bind fun _ _ => ?_
  refine (read_keeps (by omega)).bind fun _ _ => ?_
  refine (read_keeps (by omega)).bind fun _ _ => ?_
  refine (read_keeps h).bind fun _ _ => ?_
  exact Guarantees.pure trivial

variable (hp : p.length ≤ protoMaxPacketLength) {ptr frameLen : ℕ}
  (hframe : ptr + frameLen = p.length)
include hp hframe

/-- **The walk over the extension headers** ends, wherever it stops. -/
theorem ipv6Walk_keeps {n pos : ℕ} (hn : 0 < n) (hturns : frameLen < pos + n)
    (hpos : pos ≤ frameLen + 2048) (proto : ℕ) :
    Keeps p (ipv6Walk p ptr frameLen n pos proto) fun r => r.1 ≤ frameLen + 2048 := by
  have hlt := length_lt hp
  induction n generalizing pos proto with
  | zero => exact absurd hn (Nat.lt_irrefl 0)
  | succ n ih =>
      refine Guarantees.ite (fun hinside => ?_) fun _ => Guarantees.pure hpos
      refine Guarantees.ite (fun _ => ?_) fun _ => Guarantees.pure hpos
      have hadd : add32 pos 8 = pos + 8 := add32_eq (by omega)
      rw [hadd]
      refine Guarantees.ite (fun _ => Guarantees.pure hpos) fun hlong => ?_
      -- there is a whole header
      refine (read_keeps (by omega)).bind fun next _ => ?_
      refine (read_keeps (by omega)).bind fun words _ => ?_
      have hwords := words.toNat_lt
      rw [add32_eq (by omega)]
      exact ih (by omega) (by omega) (by omega) _

omit hp in
theorem flowOfIPv4_keeps (h : 20 ≤ frameLen) :
    Keeps p (flowOfIPv4 p ptr frameLen) fun _ => True := by
  refine (read_keeps (by omega)).bind fun proto _ => ?_
  refine (read_keeps (by omega)).bind fun first _ => ?_
  refine Guarantees.ite (fun hports => ports_keeps ?_ _) fun _ => Guarantees.pure trivial
  have hlong := hports.2
  omega

theorem flowOfIPv6_keeps (h : 40 ≤ frameLen) :
    Keeps p (flowOfIPv6 p ptr frameLen) fun _ => True := by
  have hlt := length_lt hp
  refine (read_keeps (by omega)).bind fun proto _ => ?_
  refine (ipv6Walk_keeps hp hframe (Nat.succ_pos _) (by omega) (by omega) _).bind
    fun payload hpayload => ?_
  rw [add32_eq (by omega)]
  refine Guarantees.ite (fun hports => ports_keeps ?_ _) fun _ => Guarantees.pure trivial
  have hlong := hports.2
  omega

theorem flowOf_keeps (etherType : ℕ) : Keeps p (flowOf p etherType ptr frameLen) fun _ => True := by
  refine (tell_keeps (.frame .flowId ptr frameLen) hframe).bind fun _ _ => ?_
  refine Guarantees.ite (fun h => flowOfIPv4_keeps hframe h.2) fun _ => ?_
  refine Guarantees.ite (fun h => flowOfIPv6_keeps hp hframe h.2) fun _ => ?_
  exact Guarantees.pure trivial

omit hframe in
theorem flowId_keeps (RR : ExtentEnvironment) (idxEtherType idxPayload : ℕ) :
    Keeps p (flowId p RR idxEtherType idxPayload) fun _ => True := by
  refine Guarantees.ite (fun h => ?_) fun _ => Guarantees.pure trivial
  refine (uintAt_keeps 2 idxEtherType).bind fun etherType _ => ?_
  refine (left_keeps hp h.2.le).bind fun frameLen hleft => ?_
  exact flowOf_keeps hp hleft etherType

end Flow

section Certificates

variable (hp : p.length ≤ protoMaxPacketLength)
include hp

theorem comQualifiers_keeps (n count lastId : ℕ) {i : ℕ} (hi : i ≤ p.length) :
    Keeps p (comQualifiers p n count lastId i) fun r => i ≤ r ∧ r ≤ p.length := by
  have hlt := length_lt hp
  induction n generalizing count lastId i with
  | zero => exact Guarantees.pure ⟨le_rfl, hi⟩
  | succ n ih =>
      refine (uintAt_keeps 8 i).bind fun qid _ => ?_
      refine Guarantees.ite (fun _ => Guarantees.stop (Option.some_ne_none _)) fun _ => ?_
      rw [add32_eq (by omega), add32_eq (by omega), add32_eq (by omega)]
      refine (uintAt_keeps 8 (i + 8)).bind fun _ _ => ?_
      refine (uintAt_keeps 8 (i + 16)).bind fun _ hread => ?_
      refine (ih (count + 1) qid (i := i + 24) (by omega)).imp fun r hr => ?_
      exact ⟨by omega, hr.2⟩

theorem comSignature_keeps {i : ℕ} (hi : i ≤ p.length) :
    Keeps p (comSignature p i) fun r => i ≤ r ∧ r ≤ p.length := by
  have hlt := length_lt hp
  have hfive : addressLength = 5 := rfl
  have hsignature : eccSignatureLen = 96 := rfl
  rw [comSignature, hfive, hsignature]
  refine (field_keeps (by omega)).bind fun signer hsigner => ?_
  rw [add32_eq (by omega)]
  refine Guarantees.ite (fun _ => Guarantees.pure ⟨by omega, hsigner.2⟩) fun _ => ?_
  refine (field_keeps (by omega)).bind fun _ hfield => ?_
  rw [add32_eq (by omega)]
  exact Guarantees.pure ⟨by omega, hfield.2⟩

/-- **A certificate** ends inside the packet. -/
theorem comDeserialize_keeps (startAt : ℕ) :
    Keeps p (comDeserialize p startAt) fun r => startAt + r ≤ p.length := by
  have hlt := length_lt hp
  refine (index_keeps startAt).bind fun type hstart => ?_
  refine Guarantees.ite (fun _ => Guarantees.stop (Option.some_ne_none _)) fun _ => ?_
  rw [add32_eq (by omega), add32_eq (by omega)]
  refine (uintAt_keeps 2 (startAt + 1)).bind fun numq hnumq => ?_
  refine (comQualifiers_keeps hp numq 0 0 (by omega)).bind fun i hi => ?_
  refine (comSignature_keeps hp hi.2).bind fun j hj => ?_
  have hnot : startAt ≤ j := by omega
  refine (tell_keeps (.difference j startAt) hnot).bind fun _ _ => Guarantees.pure ?_
  rw [sub32_eq (by omega) (by omega)]
  omega

theorem inlineCom_keeps (flags : UInt8) {startAt : ℕ} (h : startAt ≤ p.length) :
    Keeps p (inlineCom p flags startAt) fun r => startAt + r ≤ p.length :=
  Guarantees.ite (fun _ => comDeserialize_keeps hp startAt) fun _ => Guarantees.pure h

end Certificates

theorem filtered_keeps (n : ExtentNetwork) (source dest : Mac) {frameData frameLen : ℕ}
    (h : frameData + frameLen = p.length) (etherType : ℕ) (goesOn : ℤ → Bool) :
    Keeps p (n.filtered source dest frameData frameLen etherType goesOn) fun _ => True := by
  refine (tell_keeps (.frame .filter frameData frameLen) h).bind fun _ _ => ?_
  refine Guarantees.ite (fun _ => ?_) fun _ => Guarantees.pure trivial
  exact tell_keeps (.frame .tap frameData frameLen) h

section Handlers

variable (hp : p.length ≤ protoMaxPacketLength)
include hp

theorem frameBody_keeps (n : ExtentNetwork) : Keeps p (frameBody p n) fun _ => True := by
  refine Guarantees.ite (fun h => ?_) fun _ => Guarantees.pure trivial
  refine (uintAt_keeps 2 frameIdxEtherType).bind fun etherType _ => ?_
  refine (left_keeps hp h.le).bind fun frameLen hleft => ?_
  exact filtered_keeps n n.peerMac n.mac hleft etherType _

/-- The end of the certificate is inside the packet, and so is, once the two addresses have been
read, the beginning of the frame. -/
theorem extFrameBody_keeps (n : ExtentNetwork) {comLen : ℕ}
    (hcom : ExtFramePacket.idxCom + comLen ≤ p.length) :
    Keeps p (extFrameBody p n comLen) fun _ => True := by
  have hlt := length_lt hp
  have hstart : ExtFramePacket.idxCom = 37 := rfl
  have hto : ExtFramePacket.idxTo = 37 := rfl
  have hfrom : ExtFramePacket.idxFrom = 43 := rfl
  have hetherType : ExtFramePacket.idxEtherType = 49 := rfl
  have hpayload : ExtFramePacket.idxPayload = 51 := rfl
  refine Guarantees.ite (fun h => ?_) fun _ => Guarantees.pure trivial
  rw [hetherType, hto, hfrom, hpayload, add32_eq (by omega), add32_eq (by omega),
    add32_eq (by omega), add32_eq (by omega)]
  refine (uintAt_keeps 2 _).bind fun etherType _ => ?_
  refine (field_keeps (by omega)).bind fun to_ _ => ?_
  refine (field_keeps (by omega)).bind fun from_ hfield => ?_
  refine (left_keeps hp (by omega)).bind fun frameLen hleft => ?_
  refine (field_keeps (by omega)).bind fun frameData hdata => ?_
  refine Guarantees.ite (fun _ => Guarantees.pure trivial) fun _ => ?_
  refine filtered_keeps n _ _ ?_ etherType _
  rw [hdata.1]
  exact hleft

theorem multicastGather_keeps (flags : UInt8) {offset : ℕ}
    (h : multicastIdxFields + offset ≤ p.length) :
    Keeps p (multicastGather p flags offset) fun r => multicastIdxFields + r ≤ p.length := by
  have hlt := length_lt hp
  have hfields : multicastIdxFields = 37 := rfl
  rw [multicastGather, hfields, add32_eq (by omega), add32_eq (by omega)]
  refine Guarantees.ite (fun _ => ?_) fun _ => Guarantees.pure h
  refine (uintAt_keeps 4 _).bind fun _ hread => Guarantees.pure ?_
  omega

theorem multicastSource_keeps (n : ExtentNetwork) (flags : UInt8) {offset : ℕ}
    (h : multicastIdxFields + offset ≤ p.length) :
    Keeps p (multicastSource p n flags offset) fun r => multicastIdxFields + r.2 ≤ p.length := by
  have hlt := length_lt hp
  have hfields : multicastIdxFields = 37 := rfl
  rw [multicastSource, hfields, add32_eq (by omega), add32_eq (by omega)]
  refine Guarantees.ite (fun _ => ?_) fun _ => Guarantees.pure h
  refine (field_keeps (by omega)).bind fun i hi => Guarantees.pure ?_
  show 37 + (offset + 6) ≤ p.length
  omega

theorem multicastBody_keeps (n : ExtentNetwork) (flags : UInt8) (source dest : Mac)
    (etherType : ℕ) {offset frameLen : ℕ}
    (hframe : offset + multicastIdxFrame + frameLen = p.length) :
    Keeps p (multicastBody p n flags source dest etherType offset frameLen) fun _ => True := by
  have hlt := length_lt hp
  have hnothing : Keeps p (pure ()) fun _ => True := Guarantees.pure trivial
  refine Guarantees.ite (fun _ => hnothing) fun _ => ?_
  refine Guarantees.ite (fun _ => ?_) fun _ => hnothing
  refine Guarantees.ite (fun _ => hnothing) fun _ => ?_
  rw [add32_eq (by omega)]
  refine (field_keeps (by omega)).bind fun frameData hdata => ?_
  rw [hdata.1]
  have hreplicate : Keeps p (replicate n flags (offset + multicastIdxFrame) frameLen)
      fun _ => True :=
    Guarantees.ite (fun _ => tell_keeps (.frame .replicator _ frameLen) hframe) fun _ => hnothing
  refine hreplicate.bind fun _ _ => ?_
  refine Guarantees.ite (fun _ => hnothing) fun _ => ?_
  exact filtered_keeps n source dest hframe etherType _

theorem multicastFields_keeps (n : ExtentNetwork) (flags : UInt8) {offset : ℕ}
    (h : multicastIdxFields + offset ≤ p.length) :
    Keeps p (multicastFields p n flags offset) fun _ => True := by
  have hlt := length_lt hp
  have hfields : multicastIdxFields = 37 := rfl
  have hdestAdi : multicastIdxDestAdi = 43 := rfl
  have hetherType : multicastIdxEtherType = 47 := rfl
  have hframe : multicastIdxFrame = 49 := rfl
  refine (multicastGather_keeps hp flags h).bind fun offset hoffset => ?_
  refine (multicastSource_keeps hp n flags hoffset).bind fun source hsource => ?_
  generalize source.2 = offset at hsource
  rw [hfields, hdestAdi, hetherType, hframe]
  rw [hfields] at hsource
  rw [add32_eq (by omega), add32_eq (by omega), add32_eq (by omega), add32_eq (by omega)]
  refine (field_keeps (by omega)).bind fun dest _ => ?_
  refine (uintAt_keeps 4 _).bind fun _ _ => ?_
  refine (uintAt_keeps 2 _).bind fun etherType hread => ?_
  refine (left_keeps hp (by omega)).bind fun frameLen hleft => ?_
  exact multicastBody_keeps hp n flags source.1 _ etherType (by rw [hframe]; exact hleft)

theorem doFrame_keeps (RR : ExtentEnvironment) : Keeps p (doFrame p RR) fun _ => True := by
  refine (flowId_keeps hp RR _ _).bind fun _ _ => ?_
  refine (uintAt_keeps 8 _).bind fun nwid _ => ?_
  cases RR.networks nwid with
  | none => exact Guarantees.pure trivial
  | some n =>
      refine Guarantees.ite (fun _ => ?_) fun _ => Guarantees.pure trivial
      exact (frameBody_keeps hp n).bind fun _ _ => Guarantees.pure trivial

theorem doExtFrame_keeps (RR : ExtentEnvironment) : Keeps p (doExtFrame p RR) fun _ => True := by
  refine (flowId_keeps hp RR _ _).bind fun _ _ => ?_
  refine (uintAt_keeps 8 _).bind fun nwid _ => ?_
  cases RR.networks nwid with
  | none => exact Guarantees.pure trivial
  | some n =>
      refine (index_keeps _).bind fun flags hflags => ?_
      have hstart : ExtFramePacket.idxCom ≤ p.length := hflags
      refine (inlineCom_keeps hp flags hstart).bind fun comLen hcom => ?_
      refine Guarantees.ite (fun _ => ?_) fun _ => Guarantees.pure trivial
      exact (extFrameBody_keeps hp n hcom).bind fun _ _ => Guarantees.pure trivial

theorem doMulticastFrame_keeps (RR : ExtentEnvironment) :
    Keeps p (doMulticastFrame p RR) fun _ => True := by
  refine (uintAt_keeps 8 _).bind fun nwid _ => ?_
  refine (index_keeps _).bind fun flags hflags => ?_
  cases RR.networks nwid with
  | none => exact Guarantees.pure trivial
  | some n =>
      have hstart : multicastIdxFields ≤ p.length := hflags
      refine (inlineCom_keeps hp flags hstart).bind fun offset hoffset => ?_
      refine Guarantees.ite (fun _ => ?_) fun _ => Guarantees.pure trivial
      exact (multicastFields_keeps hp n flags hoffset).bind fun _ _ => Guarantees.pure trivial

end Handlers

/-- **Where a frame is.**  Whatever is in a packet and whatever the node and the network answer, a
handler ends, and every sum and difference it has relied on is the true one, and every frame it has
passed on is the end of the packet. -/
theorem extents_inside (p : PacketBuffer) (RR : ExtentEnvironment) :
    Outcome (FrameEvent.Inside p.bytes) (fun e => e ≠ none) (fun _ => True)
        (doFrame p.bytes RR []) ∧
      Outcome (FrameEvent.Inside p.bytes) (fun e => e ≠ none) (fun _ => True)
        (doExtFrame p.bytes RR []) ∧
      Outcome (FrameEvent.Inside p.bytes) (fun e => e ≠ none) (fun _ => True)
        (doMulticastFrame p.bytes RR []) :=
  ⟨(doFrame_keeps p.fits RR).run, (doExtFrame_keeps p.fits RR).run,
    (doMulticastFrame_keeps p.fits RR).run⟩

end FrameExtents

end ZGalaxy
