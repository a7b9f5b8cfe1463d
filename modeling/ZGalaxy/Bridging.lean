/-
ZGalaxy/Bridging.lean

Frames with addresses of their own: `EXT_FRAME`.

A frame that arrives in such a packet has passed the network's gate and its rules, and then it is
looked at who may send from where to where.  A peer that sends from a MAC other than its own must be
a bridge; a frame to a MAC other than this node's must be a multicast, where the network has any, or
this node must be a bridge.  The second question is asked only when the first does not arise.

Main result: `delivery_gated_iff`, that a frame reaches the tap only where it may, exactly when no
bridged frame is let through to a destination that a bridge alone may serve (`Misdirected`).
-/
import ZGalaxy.CapabilityFilter
import ZGalaxy.CredentialReaders

namespace ZGalaxy

open ByteList

/-! ### Ethernet addresses of nodes -/

namespace Mac

/-- `MAC::firstOctetForNetwork`. -/
def firstOctetForNetwork (nwid : NetworkId) : BitVec 8 :=
  -- locally administered, not multicast, from LSB of network ID
  let a := (nwid &&& 0xfe).setWidth 8 ||| 0x02
  if a = 0x52 then 0x32 else a

/-- `MAC::fromAddress`. -/
def fromAddress (ztaddr : Address) (nwid : NetworkId) : Mac :=
  let octet (shift : ℕ) : Mac := ((nwid >>> shift) &&& 0xff).setWidth 48
  let m : Mac := (firstOctetForNetwork nwid).setWidth 48 <<< 40 ||| ztaddr.setWidth 48
  m ^^^ octet 8 <<< 32 ^^^ octet 16 <<< 24 ^^^ octet 24 <<< 16 ^^^ octet 32 <<< 8 ^^^ octet 40

end Mac

/-! ### Networks with bridges -/

/-- `ZT_NETWORKCONFIG_SPECIALIST_TYPE_ACTIVE_BRIDGE`. -/
def specialistTypeActiveBridge : BitVec 64 := 0x0000020000000000

/-- A network with what its configuration says about bridges and multicast. -/
structure BridgedNetwork extends Network where
  specialists : List (BitVec 64)
  multicastLimit : UInt32

namespace BridgedNetwork

/-- `NetworkConfig::permitsBridging`. -/
def permitsBridging (n : BridgedNetwork) (fromPeer : Address) : Bool :=
  n.specialists.any fun s => fromPeer == Address.ofUInt64 s && s &&& specialistTypeActiveBridge != 0

/-- `Network::mac`. -/
def mac (n : BridgedNetwork) (ownAddress : Address) : Mac := Mac.fromAddress ownAddress n.id

end BridgedNetwork

/-- What `_doEXT_FRAME` uses of the node, apart from its networks. -/
structure FrameEnvironment where
  ecc : Ecc
  known : KnownIdentities
  now : Int64
  address : Address
  prngs : ℕ → ℕ → UInt64

/-- What `_doEXT_FRAME` calls. -/
inductive FrameCall
  /-- what the network sends when its gate is asked -/
  | network (o : Network.Output)
  | sendErrorNeedCredentials
  /-- what the filter sends on -/
  | send (f : ExtFrame)
  | learnBridgeRoute (mac : Mac) (addr : Address)
  | incomingNetworkFrameDropped (reason : String)
  | putFrame (source dest : Mac) (etherType : ℕ) (frameData : Bytes)
  /-- the acknowledgement -/
  | sendOk

/-- What has become of a packet: the network, what was called, and the answer unless an exception
ended it. -/
structure FrameHandled where
  network : Option BridgedNetwork
  calls : List FrameCall
  answer : Option Bool

/-! ### The packet -/

namespace ExtFramePacket

/-- The index of `ZT_PROTO_VERB_EXT_FRAME_IDX_NETWORK_ID`. -/
def idxNetworkId : ℕ := 28

/-- The index of `ZT_PROTO_VERB_EXT_FRAME_IDX_FLAGS`. -/
def idxFlags : ℕ := idxNetworkId + 8

/-- The index of `ZT_PROTO_VERB_EXT_FRAME_IDX_COM`. -/
def idxCom : ℕ := idxFlags + 1

/-- The index of `ZT_PROTO_VERB_EXT_FRAME_IDX_TO`. -/
def idxTo : ℕ := idxFlags + 1

/-- The index of `ZT_PROTO_VERB_EXT_FRAME_IDX_FROM`. -/
def idxFrom : ℕ := idxTo + 6

/-- The index of `ZT_PROTO_VERB_EXT_FRAME_IDX_ETHERTYPE`. -/
def idxEtherType : ℕ := idxFrom + 6

/-- The index of `ZT_PROTO_VERB_EXT_FRAME_IDX_PAYLOAD`. -/
def idxPayload : ℕ := idxEtherType + 2

/-- The network of a packet. -/
def nwid (p : Bytes) : Except ZTException NetworkId :=
  (Buffer.uintAt 8 p idxNetworkId).map (BitVec.ofNat 64)

/-- The inline certificate, where the flags announce one, and its length. -/
def inlineCom (flags : UInt8) (p : Bytes) : Except ZTException (CertificateOfMembership × ℕ) :=
  if flags &&& 0x01 ≠ 0 then
    (CertificateOfMembership.deserialize p idxCom).map fun r => (r.1, r.2 - idxCom)
  else .ok (.empty, 0)

/-- The frame behind a certificate of that length. -/
def frame (p : Bytes) (comLen : ℕ) : Except ZTException Frame := do
  let etherType ← Buffer.uintAt 2 p (comLen + idxEtherType)
  let to_ ← Buffer.field p (comLen + idxTo) 6
  let from_ ← Buffer.field p (comLen + idxFrom) 6
  pure {
    macSource := BitVec.ofNat 48 (beNat from_)
    macDest := BitVec.ofNat 48 (beNat to_)
    frameData := fun i => byteAt p (comLen + idxPayload + i)
    frameLen := p.length - (comLen + idxPayload)
    etherType := etherType
    vlanId := 0 }

end ExtFramePacket

/-- The frame as it is handed to the tap. -/
def Frame.put (f : Frame) : FrameCall :=
  .putFrame f.macSource f.macDest f.etherType ((List.range f.frameLen).map f.frameData)

/-! ### The handler -/

namespace BridgedNetwork

variable (RR : FrameEnvironment) (nwid : NetworkId) (n : BridgedNetwork) (peer : Identity)
  (frame : Frame)

/-- The network once it has the inline certificate. -/
def withCom (com : CertificateOfMembership) : BridgedNetwork :=
  if com.isSet then { n with toNetwork := (n.addCom RR.ecc RR.known com).2 } else n

/-- The network once its gate was asked. -/
def gated : BridgedNetwork := { n with toNetwork := (n.gate RR.ecc RR.now peer).2.1 }

/-- What the rules say about the frame; zero where an exception leaves it unsaid. -/
def verdict : ℕ :=
  match (n.filterIncomingPacket RR.address RR.prngs peer.address RR.address frame).1.answer with
  | .ok accept => accept
  | .error _ => 0

/-- The case 1 of the verdict, and whether it falls through to the next. -/
def bridge : List FrameCall × Bool :=
  if frame.macSource ≠ Mac.fromAddress peer.address nwid then
    if n.permitsBridging peer.address then ([.learnBridgeRoute frame.macSource peer.address], true)
    else ([.incomingNetworkFrameDropped "bridging not allowed (remote)"], false)
  else if frame.macDest ≠ n.mac RR.address then
    if frame.macDest.isMulticast then
      if n.multicastLimit = 0 then ([.incomingNetworkFrameDropped "multicast disabled"], false)
      else ([], true)
    else if !n.permitsBridging RR.address then
      ([.incomingNetworkFrameDropped "bridging not allowed (local)"], false)
    else ([], true)
  else ([], true)

/-- The switch over the verdict, and whether the handler goes on after it. -/
def deliver (accept : ℕ) : List FrameCall × Bool :=
  match accept with
  | 1 =>
      let b := n.bridge RR nwid peer frame
      if b.2 then (b.1 ++ [frame.put], true) else b
  | 2 => ([frame.put], true)
  | _ => ([], true)

/-- What is done with a frame from a peer that the gate admitted: the network afterwards, what is
called, and whether the handler goes on, unless an exception ends it. -/
def incoming : BridgedNetwork × List FrameCall × Option Bool :=
  if frame.macSource = 0 ∨ frame.macSource = n.mac RR.address then (n, [], some false)
  else
    let f := n.filterIncomingPacket RR.address RR.prngs peer.address RR.address frame
    let n' : BridgedNetwork := { n with toNetwork := f.2 }
    match f.1.answer with
    | .error _ => (n', f.1.sends.map .send, none)
    | .ok accept =>
        let d := n'.deliver RR nwid peer frame accept
        (n', f.1.sends.map .send ++ d.1, some d.2)

/-- The acknowledgement, where the flags ask for one. -/
def acknowledge (flags : UInt8) : List FrameCall := if flags &&& 0x10 ≠ 0 then [.sendOk] else []

/-- The end of the handler: the acknowledgement, unless it was left or an exception ended it. -/
def finish (flags : UInt8) (announced : List FrameCall) :
    BridgedNetwork × List FrameCall × Option Bool → FrameHandled
  | (n, calls, none) => ⟨some n, announced ++ calls, none⟩
  | (n, calls, some goesOn) =>
      ⟨some n, announced ++ (calls ++ if goesOn then acknowledge flags else []), some true⟩

/-- The handler once the certificate was looked at. -/
def handle (flags : UInt8) (comLen : ℕ) (p : Bytes) : FrameHandled :=
  let n' := n.gated RR peer
  let announced := (n.gate RR.ecc RR.now peer).2.2.map .network
  if (n.gate RR.ecc RR.now peer).1 then
    if ExtFramePacket.idxPayload < p.length then
      match ExtFramePacket.frame p comLen with
      | .error _ => ⟨some n', announced, none⟩
      | .ok frame => finish flags announced (n'.incoming RR nwid peer frame)
    else ⟨some n', announced ++ acknowledge flags, some true⟩
  else ⟨some n', announced ++ [.sendErrorNeedCredentials], some false⟩

end BridgedNetwork

/-- `IncomingPacket::_doEXT_FRAME`, where the node has joined the network. -/
def doExtFrameFor (RR : FrameEnvironment) (nwid : NetworkId) (n : BridgedNetwork) (peer : Identity)
    (p : Bytes) : FrameHandled :=
  match Buffer.byte p ExtFramePacket.idxFlags with
  | .error _ => ⟨some n, [], none⟩
  | .ok flags =>
      match ExtFramePacket.inlineCom flags p with
      | .error _ => ⟨some n, [], none⟩
      | .ok (com, comLen) => (n.withCom RR com).handle RR nwid peer flags comLen p

/-- `IncomingPacket::_doEXT_FRAME`. -/
def doExtFrame (RR : FrameEnvironment) (networks : NetworkId → Option BridgedNetwork)
    (peer : Identity) (p : Bytes) : FrameHandled :=
  match ExtFramePacket.nwid p with
  | .error _ => ⟨none, [], none⟩
  | .ok nwid =>
      match networks nwid with
      | none => ⟨none, [], some true⟩
      | some n => doExtFrameFor RR nwid n peer p

/-! ### What reaches the tap -/

section Delivery

variable (RR : FrameEnvironment) (networks : NetworkId → Option BridgedNetwork) (peer : Identity)
  (p : Bytes)

/-- The gate of the network `n` is asked about the frame: the node has joined the network, and the
packet has a frame behind its certificate. -/
def Reaches (nwid : NetworkId) (n : BridgedNetwork) (frame : Frame) : Prop :=
  ExtFramePacket.nwid p = .ok nwid ∧ ∃ joined flags com comLen, networks nwid = some joined ∧
    Buffer.byte p ExtFramePacket.idxFlags = .ok flags ∧
    ExtFramePacket.inlineCom flags p = .ok (com, comLen) ∧ n = joined.withCom RR com ∧
    ExtFramePacket.idxPayload < p.length ∧ ExtFramePacket.frame p comLen = .ok frame

/-- The gate lets the frame through to the rules. -/
structure Enters (n : BridgedNetwork) (frame : Frame) : Prop where
  admitted : (n.gate RR.ecc RR.now peer).1 = true
  notNull : frame.macSource ≠ 0
  notOwn : frame.macSource ≠ n.mac RR.address

/-- A multicast, where the network has any. -/
def EnabledMulticast (n : BridgedNetwork) (m : Mac) : Prop :=
  m.isMulticast = true ∧ n.multicastLimit ≠ 0

instance (n : BridgedNetwork) (m : Mac) : Decidable (EnabledMulticast n m) :=
  inferInstanceAs (Decidable (_ ∧ _))

/-- A frame may be handed to the tap. -/
structure Permitted (nwid : NetworkId) (n : BridgedNetwork) (frame : Frame) : Prop
    extends Enters RR peer n frame where
  accepted : (n.gated RR peer).verdict RR peer frame = 1 ∨
    (n.gated RR peer).verdict RR peer frame = 2
  source : (n.gated RR peer).verdict RR peer frame = 1 →
    frame.macSource ≠ Mac.fromAddress peer.address nwid → n.permitsBridging peer.address = true
  dest : (n.gated RR peer).verdict RR peer frame = 1 → frame.macDest ≠ n.mac RR.address →
    ¬EnabledMulticast n frame.macDest → n.permitsBridging RR.address = true

/-- A peer may have a bridge route. -/
def RoutePermitted (n : BridgedNetwork) (addr : Address) : Prop :=
  addr = peer.address ∧ n.permitsBridging addr = true

/-- Every frame that is handed to the tap may be, and so every bridge route that is learned. -/
def DeliveryGated : Prop :=
  (∀ source dest etherType frameData,
    .putFrame source dest etherType frameData ∈ (doExtFrame RR networks peer p).calls →
    ∃ nwid n frame, Reaches RR networks p nwid n frame ∧
      frame.put = .putFrame source dest etherType frameData ∧ Permitted RR peer nwid n frame) ∧
  ∀ mac addr, .learnBridgeRoute mac addr ∈ (doExtFrame RR networks peer p).calls →
    ∃ nwid n frame, Reaches RR networks p nwid n frame ∧ RoutePermitted peer n addr

/-- A bridged frame goes to a destination that a bridge alone may serve, and this node is none. -/
structure Misdirected (nwid : NetworkId) (n : BridgedNetwork) (frame : Frame) : Prop where
  bridged : frame.macSource ≠ Mac.fromAddress peer.address nwid
  bridge : n.permitsBridging peer.address = true
  elsewhere : frame.macDest ≠ n.mac RR.address
  unicast : ¬EnabledMulticast n frame.macDest
  noBridge : n.permitsBridging RR.address = false

end Delivery

section Delivery

variable {RR : FrameEnvironment} {networks : NetworkId → Option BridgedNetwork} {peer : Identity}
  {p : Bytes} {nwid : NetworkId} {n : BridgedNetwork} {frame : Frame}

/-- What a packet reaches is given by its bytes. -/
theorem Reaches.unique {nwid' : NetworkId} {n' : BridgedNetwork} {frame' : Frame}
    (h : Reaches RR networks p nwid n frame) (h' : Reaches RR networks p nwid' n' frame') :
    nwid' = nwid ∧ n' = n ∧ frame' = frame := by
  obtain ⟨hnwid, joined, flags, com, comLen, hjoined, hflags, hcom, rfl, -, hframe⟩ := h
  obtain ⟨hnwid', joined', flags', com', comLen', hjoined', hflags', hcom', rfl, -, hframe'⟩ := h'
  obtain rfl := Except.ok.inj (hnwid.symm.trans hnwid')
  obtain rfl := Option.some.inj (hjoined.symm.trans hjoined')
  obtain rfl := Except.ok.inj (hflags.symm.trans hflags')
  obtain ⟨rfl, rfl⟩ := Prod.mk.inj (Except.ok.inj (hcom.symm.trans hcom'))
  exact ⟨rfl, rfl, Except.ok.inj (hframe'.symm.trans hframe)⟩

/-- The calls that the switch over the verdict makes. -/
def FrameCall.switched : FrameCall → Prop
  | learnBridgeRoute _ _ | putFrame _ _ _ _ => True
  | _ => False

theorem switched_put (f : Frame) : f.put.switched := trivial

/-- The frame enters, and the switch makes the call. -/
def Switches (RR : FrameEnvironment) (peer : Identity) (nwid : NetworkId) (n : BridgedNetwork)
    (frame : Frame) (c : FrameCall) : Prop :=
  Enters RR peer n frame ∧
    c ∈ (n.deliver RR nwid peer frame ((n.gated RR peer).verdict RR peer frame)).1

namespace BridgedNetwork

theorem id_gated : (n.gated RR peer).id = n.id := by
  unfold gated Network.gate
  split_ifs
  · rfl
  · rfl

/-- The switch looks at the id and at what is said about bridges, and not at memberships. -/
theorem deliver_toNetwork {network : Network} (h : network.id = n.id) (accept : ℕ) :
    { n with toNetwork := network }.deliver RR nwid peer frame accept
      = n.deliver RR nwid peer frame accept := by
  have hmac : { n with toNetwork := network }.mac RR.address = n.mac RR.address := by
    show Mac.fromAddress RR.address network.id = _
    rw [h]
    rfl
  have hbridge : { n with toNetwork := network }.bridge RR nwid peer frame
      = n.bridge RR nwid peer frame := by
    unfold bridge
    rw [hmac]
    rfl
  unfold deliver
  rw [hbridge]

variable (RR peer n frame) in
theorem verdict_eq : n.verdict RR peer frame =
    match (n.filterIncomingPacket RR.address RR.prngs peer.address RR.address frame).1.answer with
    | .ok accept => accept
    | .error _ => 0 := rfl

/-- The calls for a frame are those of the switch, when the frame enters. -/
theorem mem_incoming {c : FrameCall} (hc : c.switched) :
    c ∈ ((n.gated RR peer).incoming RR nwid peer frame).2.1 ↔
      frame.macSource ≠ 0 ∧ frame.macSource ≠ n.mac RR.address ∧
        c ∈ (n.deliver RR nwid peer frame ((n.gated RR peer).verdict RR peer frame)).1 := by
  have hmac : (n.gated RR peer).mac RR.address = n.mac RR.address := by
    unfold mac
    rw [id_gated]
  unfold incoming
  rw [hmac]
  split_ifs with hsource
  · refine iff_of_false List.not_mem_nil fun h => ?_
    rcases hsource with hnull | hown
    · exact h.1 hnull
    · exact h.2.1 hown
  · obtain ⟨hnull, hown⟩ := not_or.mp hsource
    have hsend : c ∉ (((n.gated RR peer).filterIncomingPacket RR.address RR.prngs peer.address
        RR.address frame).1.sends.map FrameCall.send) := by
      intro h
      obtain ⟨f, -, rfl⟩ := List.mem_map.mp h
      exact hc
    have hid : ((n.gated RR peer).filterIncomingPacket RR.address RR.prngs peer.address
        RR.address frame).2.id = n.id := id_gated
    have hverdict := verdict_eq RR peer (n.gated RR peer) frame
    dsimp only
    rcases hanswer : ((n.gated RR peer).filterIncomingPacket RR.address RR.prngs peer.address
        RR.address frame).1.answer with e | accept
    · -- nothing is called where an exception leaves the verdict unsaid
      rw [hanswer] at hverdict
      rw [hverdict]
      exact iff_of_false hsend fun h => absurd h.2.2 List.not_mem_nil
    · rw [hanswer] at hverdict
      show c ∈ _ ++ (BridgedNetwork.deliver RR nwid { n with toNetwork := _ } peer frame _).1 ↔ _
      rw [List.mem_append, or_iff_right hsend, deliver_toNetwork hid, hverdict]
      exact (and_iff_right hnull).symm.trans (and_congr_right fun _ => (and_iff_right hown).symm)

theorem not_switched_announced {c : FrameCall} (hc : c.switched) {os : List Network.Output} :
    c ∉ os.map FrameCall.network := by
  intro h
  obtain ⟨o, -, rfl⟩ := List.mem_map.mp h
  exact hc

theorem not_switched_acknowledge {c : FrameCall} (hc : c.switched) {flags : UInt8} :
    c ∉ acknowledge flags := by
  unfold acknowledge
  split_ifs
  · intro h
    obtain rfl := List.mem_singleton.mp h
    exact hc
  · exact List.not_mem_nil

theorem mem_finish {c : FrameCall} (hc : c.switched) {flags : UInt8} {announced : List FrameCall}
    (hannounced : c ∉ announced) {r : BridgedNetwork × List FrameCall × Option Bool} :
    c ∈ (finish flags announced r).calls ↔ c ∈ r.2.1 := by
  obtain ⟨n, calls, - | goesOn⟩ := r
  · show c ∈ announced ++ calls ↔ c ∈ calls
    rw [List.mem_append, or_iff_right hannounced]
  · have hacknowledge : c ∉ if goesOn = true then acknowledge flags else [] := by
      split_ifs
      · exact not_switched_acknowledge hc
      · exact List.not_mem_nil
    show c ∈ announced ++ (calls ++ _) ↔ c ∈ calls
    rw [List.mem_append, or_iff_right hannounced, List.mem_append, or_iff_left hacknowledge]

/-- The handler makes the calls of the switch for a frame that the gate admits. -/
theorem mem_handle {c : FrameCall} (hc : c.switched) {flags : UInt8} {comLen : ℕ} :
    c ∈ (n.handle RR nwid peer flags comLen p).calls ↔
      ExtFramePacket.idxPayload < p.length ∧
        ∃ frame, ExtFramePacket.frame p comLen = .ok frame ∧ Switches RR peer nwid n frame c := by
  unfold handle
  dsimp only
  by_cases hgate : (n.gate RR.ecc RR.now peer).1 = true
  · rw [if_pos hgate]
    by_cases hsize : ExtFramePacket.idxPayload < p.length
    · rw [if_pos hsize, and_iff_right hsize]
      rcases ExtFramePacket.frame p comLen with e | frame
      · refine iff_of_false (not_switched_announced hc) ?_
        rintro ⟨frame, hframe, -⟩
        cases hframe
      · dsimp only
        refine (mem_finish hc (not_switched_announced hc)).trans ((mem_incoming hc).trans ?_)
        constructor
        · rintro ⟨hnull, hown, hmem⟩
          exact ⟨frame, rfl, ⟨hgate, hnull, hown⟩, hmem⟩
        · rintro ⟨_, hframe, henters, hmem⟩
          obtain rfl := Except.ok.inj hframe
          exact ⟨henters.notNull, henters.notOwn, hmem⟩
    · rw [if_neg hsize]
      refine iff_of_false (fun h => ?_) fun h => hsize h.1
      rcases List.mem_append.mp h with h | h
      · exact not_switched_announced hc h
      · exact not_switched_acknowledge hc h
  · rw [if_neg hgate]
    refine iff_of_false (fun h => ?_) fun ⟨_, _, _, hs, _⟩ => hgate hs.admitted
    rcases List.mem_append.mp h with h | h
    · exact not_switched_announced hc h
    · obtain rfl := List.mem_singleton.mp h
      exact hc

end BridgedNetwork

/-- **The calls of the switch** are made for the frame that the packet reaches, when it enters. -/
theorem mem_doExtFrame {c : FrameCall} (hc : c.switched) :
    c ∈ (doExtFrame RR networks peer p).calls ↔
      ∃ nwid n frame, Reaches RR networks p nwid n frame ∧ Switches RR peer nwid n frame c := by
  unfold doExtFrame
  rcases hnwid : ExtFramePacket.nwid p with e | nwid
  · refine iff_of_false List.not_mem_nil ?_
    rintro ⟨nwid, n, frame, ⟨h, -⟩, -⟩
    cases hnwid.symm.trans h
  · dsimp only
    rcases hjoined : networks nwid with - | joined
    · refine iff_of_false List.not_mem_nil ?_
      rintro ⟨nwid', n, frame, ⟨h, joined, _, _, _, hj, -⟩, -⟩
      obtain rfl := Except.ok.inj (hnwid.symm.trans h)
      cases hjoined.symm.trans hj
    · dsimp only
      unfold doExtFrameFor
      rcases hflags : Buffer.byte p ExtFramePacket.idxFlags with e | flags
      · refine iff_of_false List.not_mem_nil ?_
        rintro ⟨nwid', n, frame, ⟨h, joined', flags, _, _, hj, hf, -⟩, -⟩
        cases hflags.symm.trans hf
      · dsimp only
        rcases hcom : ExtFramePacket.inlineCom flags p with e | ⟨com, comLen⟩
        · refine iff_of_false List.not_mem_nil ?_
          rintro ⟨nwid', n, frame, ⟨h, joined', flags', com, comLen, hj, hf, hc', -⟩, -⟩
          obtain rfl := Except.ok.inj (hflags.symm.trans hf)
          cases hcom.symm.trans hc'
        · dsimp only
          rw [BridgedNetwork.mem_handle hc]
          constructor
          · rintro ⟨hsize, frame, hframe, hswitches⟩
            exact ⟨nwid, joined.withCom RR com, frame,
              ⟨hnwid, joined, flags, com, comLen, hjoined, hflags, hcom, rfl, hsize, hframe⟩,
              hswitches⟩
          · rintro ⟨nwid', n, frame,
              ⟨h, joined', flags', com', comLen', hj, hf, hc', rfl, hsize, hframe⟩, hswitches⟩
            obtain rfl := Except.ok.inj (hnwid.symm.trans h)
            obtain rfl := Option.some.inj (hjoined.symm.trans hj)
            obtain rfl := Except.ok.inj (hflags.symm.trans hf)
            obtain ⟨rfl, rfl⟩ := Prod.mk.inj (Except.ok.inj (hcom.symm.trans hc'))
            exact ⟨hsize, frame, hframe, hswitches⟩

/-! ### The switch over the verdict -/

namespace BridgedNetwork

/-- A bridged frame falls through when its peer is a bridge, wherever it goes. -/
theorem bridge_bridged (h : frame.macSource ≠ Mac.fromAddress peer.address nwid) :
    (n.bridge RR nwid peer frame).2 = n.permitsBridging peer.address := by
  unfold bridge
  rw [if_pos h]
  split_ifs with hpeer
  · exact hpeer.symm
  · exact (Bool.eq_false_iff.mpr hpeer).symm

/-- A frame from the peer's own MAC falls through only to where it may go. -/
theorem dest_of_bridge (h : ¬frame.macSource ≠ Mac.fromAddress peer.address nwid)
    (hthrough : (n.bridge RR nwid peer frame).2 = true) (hdest : frame.macDest ≠ n.mac RR.address)
    (hunicast : ¬EnabledMulticast n frame.macDest) : n.permitsBridging RR.address = true := by
  unfold bridge at hthrough
  rw [if_neg h, if_pos hdest] at hthrough
  by_cases hmulticast : frame.macDest.isMulticast = true
  · rw [if_pos hmulticast] at hthrough
    by_cases hlimit : n.multicastLimit = 0
    · rw [if_pos hlimit] at hthrough
      cases hthrough
    · exact absurd ⟨hmulticast, hlimit⟩ hunicast
  · rw [if_neg hmulticast] at hthrough
    by_contra hlocal
    rw [Bool.eq_false_iff.mpr hlocal] at hthrough
    cases hthrough

/-- What the case 1 calls itself. -/
theorem mem_bridge {c : FrameCall} (hc : c.switched) :
    c ∈ (n.bridge RR nwid peer frame).1 ↔
      frame.macSource ≠ Mac.fromAddress peer.address nwid ∧
        n.permitsBridging peer.address = true ∧
        c = .learnBridgeRoute frame.macSource peer.address := by
  have hdropped : ∀ reason, c ∉ [FrameCall.incomingNetworkFrameDropped reason] := by
    intro reason h
    obtain rfl := List.mem_singleton.mp h
    exact hc
  unfold bridge
  by_cases hsource : frame.macSource ≠ Mac.fromAddress peer.address nwid
  · rw [if_pos hsource, and_iff_right hsource]
    split_ifs with hpeer
    · rw [List.mem_singleton, and_iff_right hpeer]
    · exact iff_of_false (hdropped _) fun h => hpeer h.1
  · rw [if_neg hsource]
    refine iff_of_false ?_ fun h => hsource h.1
    split_ifs
    · exact hdropped _
    · exact List.not_mem_nil
    · exact hdropped _
    · exact List.not_mem_nil
    · exact List.not_mem_nil

/-- **The switch**: the frame is put on the tap by the case 2, and by the case 1 where it falls
through; a route is learned by the case 1. -/
theorem mem_deliver {c : FrameCall} {accept : ℕ} :
    c ∈ (n.deliver RR nwid peer frame accept).1 ↔
      (c = frame.put ∧ (accept = 2 ∨ accept = 1 ∧ (n.bridge RR nwid peer frame).2 = true)) ∨
        (accept = 1 ∧ c ∈ (n.bridge RR nwid peer frame).1) := by
  match accept with
  | 1 =>
      show c ∈ (if (n.bridge RR nwid peer frame).2 then
        ((n.bridge RR nwid peer frame).1 ++ [frame.put],
      true) else n.bridge RR nwid peer frame).1 ↔ _
      by_cases hthrough : (n.bridge RR nwid peer frame).2 = true
      · rw [if_pos hthrough, List.mem_append, List.mem_singleton, or_comm]
        refine or_congr ?_ (and_iff_right rfl).symm
        exact (and_iff_left (Or.inr ⟨rfl, hthrough⟩)).symm
      · rw [if_neg hthrough]
        constructor
        · exact fun h => Or.inr ⟨rfl, h⟩
        · rintro (⟨-, h | h⟩ | h)
          · cases h
          · exact absurd h.2 hthrough
          · exact h.2
  | 2 =>
      show c ∈ [frame.put] ↔ _
      rw [List.mem_singleton, or_iff_left fun h => absurd h.1 (by decide)]
      exact (and_iff_left (Or.inl rfl)).symm
  | 0 =>
      refine iff_of_false List.not_mem_nil ?_
      rintro (⟨-, h | h⟩ | h)
      · cases h
      · cases h.1
      · cases h.1
  | k + 3 =>
      refine iff_of_false List.not_mem_nil ?_
      rintro (⟨-, h | h⟩ | h)
      · cases h
      · cases h.1
      · cases h.1

end BridgedNetwork

/-- A frame that enters and is put on the tap may be, unless it is misdirected. -/
theorem permitted_of_switches (h : Switches RR peer nwid n frame frame.put)
    (hmisdirected : (n.gated RR peer).verdict RR peer frame = 1 →
      ¬Misdirected RR peer nwid n frame) : Permitted RR peer nwid n frame := by
  obtain ⟨henters, hmem⟩ := h
  rw [BridgedNetwork.mem_deliver] at hmem
  have hcase : (n.gated RR peer).verdict RR peer frame = 2 ∨
      (n.gated RR peer).verdict RR peer frame = 1 ∧ (n.bridge RR nwid peer frame).2 = true := by
    rcases hmem with ⟨-, h⟩ | ⟨-, h⟩
    · exact h
    · cases ((BridgedNetwork.mem_bridge (switched_put frame)).mp h).2.2
  refine ⟨henters, hcase.symm.imp_left And.left, ?_, ?_⟩
  · intro hone hsource
    rcases hcase with htwo | ⟨-, hthrough⟩
    · rw [hone] at htwo
      cases htwo
    · rw [← hthrough, BridgedNetwork.bridge_bridged hsource]
  · intro hone hdest hunicast
    rcases hcase with htwo | ⟨-, hthrough⟩
    · rw [hone] at htwo
      cases htwo
    · by_cases hsource : frame.macSource ≠ Mac.fromAddress peer.address nwid
      · rw [BridgedNetwork.bridge_bridged hsource] at hthrough
        by_contra hlocal
        exact hmisdirected hone
          ⟨hsource, hthrough, hdest, hunicast, Bool.eq_false_iff.mpr hlocal⟩
      · exact BridgedNetwork.dest_of_bridge hsource hthrough hdest hunicast

end Delivery

/-- **Delivery is gated**: a frame is put on the tap only where the gate, the rules and the bridges
on both sides let it, and a route is learned only for a bridge, exactly when no frame is let through
that a bridge sends to where this node may not deliver. -/
theorem delivery_gated_iff (RR : FrameEnvironment) (networks : NetworkId → Option BridgedNetwork)
    (peer : Identity) (p : Bytes) :
    DeliveryGated RR networks peer p ↔
      ∀ nwid n frame, Reaches RR networks p nwid n frame → Enters RR peer n frame →
        (n.gated RR peer).verdict RR peer frame = 1 → ¬Misdirected RR peer nwid n frame := by
  constructor
  · intro h nwid n frame hreaches henters hone hmis
    have hthrough : (n.bridge RR nwid peer frame).2 = true := by
      rw [BridgedNetwork.bridge_bridged hmis.bridged, hmis.bridge]
    have hmem : frame.put ∈ (doExtFrame RR networks peer p).calls :=
      (mem_doExtFrame (switched_put frame)).mpr ⟨nwid, n, frame, hreaches, henters,
        BridgedNetwork.mem_deliver.mpr (Or.inl ⟨rfl, Or.inr ⟨hone, hthrough⟩⟩)⟩
    obtain ⟨nwid', n', frame', hreaches', -, hpermitted⟩ := h.1 _ _ _ _ hmem
    obtain ⟨rfl, rfl, rfl⟩ := hreaches.unique hreaches'
    have hlocal := hpermitted.dest hone hmis.elsewhere hmis.unicast
    rw [hmis.noBridge] at hlocal
    cases hlocal
  · intro h
    constructor
    · intro source dest etherType frameData hmem
      have hc : FrameCall.switched (.putFrame source dest etherType frameData) := trivial
      obtain ⟨nwid, n, frame, hreaches, hswitches⟩ := (mem_doExtFrame hc).mp hmem
      have hput : .putFrame source dest etherType frameData = frame.put := by
        rcases BridgedNetwork.mem_deliver.mp hswitches.2 with ⟨hput, -⟩ | ⟨-, hb⟩
        · exact hput
        · cases ((BridgedNetwork.mem_bridge hc).mp hb).2.2
      rw [hput] at hswitches
      exact ⟨nwid, n, frame, hreaches, hput.symm,
        permitted_of_switches hswitches (h nwid n frame hreaches hswitches.1)⟩
    · intro mac addr hmem
      have hc : FrameCall.switched (.learnBridgeRoute mac addr) := trivial
      obtain ⟨nwid, n, frame, hreaches, hswitches⟩ := (mem_doExtFrame hc).mp hmem
      rcases BridgedNetwork.mem_deliver.mp hswitches.2 with ⟨hput, -⟩ | ⟨-, hb⟩
      · cases hput
      · obtain ⟨-, hpeer, hlearn⟩ := (BridgedNetwork.mem_bridge hc).mp hb
        obtain ⟨rfl, rfl⟩ := FrameCall.learnBridgeRoute.inj hlearn
        exact ⟨nwid, n, frame, hreaches, rfl, hpeer⟩

/-- The node 2, which accepts every signature and knows nobody. -/
def framedNode : FrameEnvironment where
  ecc := ⟨fun _ _ _ => true, fun _ => []⟩
  known := fun _ => none
  now := 0
  address := 2
  prngs := fun _ _ => 0

/-- A public network that accepts every frame and has the node 1 for a bridge. -/
def bridgedNetwork : BridgedNetwork where
  toNetwork := { Network.initial 1 with
    config := { NetworkConfig.none with
      networkId := 1, type := 1, rules := [⟨false, false, .action .accept⟩] } }
  specialists := [0x0000020000000001]
  multicastLimit := 32

/-- A frame of one byte, from 02:00:00:00:00:09 to 02:00:00:00:00:08. -/
def bridgedPacket : Bytes :=
  List.replicate 28 0 ++ [0, 0, 0, 0, 0, 0, 0, 1] ++ [0] ++ [2, 0, 0, 0, 0, 8] ++ [2, 0, 0, 0, 0, 9]
    ++ [8, 0] ++ [0]

/-- The frame of the packet. -/
def bridgedFrame : Frame :=
  ⟨0x020000000009, 0x020000000008, fun i => byteAt bridgedPacket (51 + i), 1, 0x0800, 0⟩

/-- **Past a node that is no bridge**: a bridge's frame to a third MAC is put on its tap. -/
theorem misdelivered : ¬ ∀ (RR : FrameEnvironment) (networks : NetworkId → Option BridgedNetwork)
    (peer : Identity) (p : Bytes), DeliveryGated RR networks peer p := by
  intro h
  have hreaches : Reaches framedNode (fun _ => some bridgedNetwork) bridgedPacket 1 bridgedNetwork
      bridgedFrame :=
    ⟨rfl, bridgedNetwork, 0, .empty, 0, rfl, rfl, rfl, rfl, by decide, rfl⟩
  have hswitches : Switches framedNode ⟨1, []⟩ 1 bridgedNetwork bridgedFrame bridgedFrame.put :=
    ⟨⟨by decide +kernel, by decide, by decide⟩,
      BridgedNetwork.mem_deliver.mpr (Or.inl ⟨rfl, Or.inr ⟨by decide +kernel, by decide⟩⟩)⟩
  obtain ⟨nwid, n, frame, hreaches', -, hpermitted⟩ :=
    (h framedNode (fun _ => some bridgedNetwork) ⟨1, []⟩ bridgedPacket).1 _ _ _ _
      ((mem_doExtFrame (switched_put bridgedFrame)).mpr ⟨1, _, _, hreaches, hswitches⟩)
  obtain ⟨rfl, rfl, rfl⟩ := hreaches.unique hreaches'
  exact absurd (hpermitted.dest (by decide +kernel) (by decide) (by decide)) (by decide)

end ZGalaxy
