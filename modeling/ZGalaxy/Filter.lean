/-
ZGalaxy/Filter.lean

The rule engine, `_doZtFilter`.

Rules are gone through in order with a few mutable variables (`FilterState`).  A match
entry is evaluated (`evaluate`) and folded into the flag of the current set, an action
is taken if the flag is set and resets it otherwise.  An entry that could only be
ANDed to a flag that is already clear is skipped.

`frameData` is memory: what lies behind the frame's length is whatever happens to be
there, since some matches read it.  Lengths and positions are natural numbers; a frame
is far shorter than 2^32 bytes.  The draws of the pseudo-random generator are given
by the number of the rule.
-/
import ZGalaxy.Membership

namespace ZGalaxy

open ByteList

/-! ### Frames -/

/-- An Ethernet frame, with the memory it lies in. -/
structure Frame where
  macSource : Mac
  macDest : Mac
  frameData : ℕ → UInt8
  frameLen : ℕ
  etherType : ℕ
  vlanId : ℕ

namespace Frame

/-- `ZT_ETHERTYPE_IPV4`. -/
def etherTypeIPv4 : ℕ := 0x0800

/-- `ZT_ETHERTYPE_IPV6`. -/
def etherTypeIPv6 : ℕ := 0x86dd

/-- `ZT_ETHERTYPE_ARP`. -/
def etherTypeArp : ℕ := 0x0806

variable (f : Frame)

/-- A byte of the frame as a number. -/
def byte (i : ℕ) : ℕ := (f.frameData i).toNat

/-- The big-endian number in `n` bytes from `i` on. -/
def beAt (n i : ℕ) : ℕ := beNat ((List.range n).map fun k => f.frameData (i + k))

/-- The IPv4 address at `i`. -/
def ip4At (i : ℕ) : InetAddress := .v4 (BitVec.ofNat 32 (f.beAt 4 i)) 0

/-- The IPv6 address at `i`. -/
def ip6At (i : ℕ) : InetAddress := .v6 (BitVec.ofNat 128 (f.beAt 16 i)) 0

/-- The frame has an IPv4 header. -/
def isIPv4 : Bool := f.etherType == etherTypeIPv4 && 20 ≤ f.frameLen

/-- The frame has an IPv6 header. -/
def isIPv6 : Bool := f.etherType == etherTypeIPv6 && 40 ≤ f.frameLen

/-- The loop of `_ipv6GetPayload` over the extension headers it knows. -/
def ipv6Walk (pos proto : ℕ) : Option (ℕ × ℕ) :=
  if pos ≤ f.frameLen then
    if proto = 0 ∨ proto = 43 ∨ proto = 60 ∨ proto = 135 then
      if f.frameLen < pos + 8 then none
      else ipv6Walk (pos + (f.byte (pos + 1) * 8 + 8)) (f.byte pos)
    else some (pos, proto)
  else none
termination_by f.frameLen + 1 - pos

/-- `_ipv6GetPayload`: position and protocol of the payload. -/
def ipv6GetPayload : Option (ℕ × ℕ) :=
  if f.frameLen < 40 then none else f.ipv6Walk 40 (f.byte 6)

/-- The length of the IPv4 header. -/
def headerLen : ℕ := 4 * (f.byte 0 &&& 0xf)

/-- The protocols that begin with a source and a destination port. -/
def hasPorts (proto : ℕ) : Bool := proto == 0x06 || proto == 0x11 || proto == 0x84 || proto == 0x88

end Frame

/-! ### Matches -/

/-- What a call of `_doZtFilter` is given and does not change. -/
structure FilterContext where
  ownAddress : Address
  nconf : NetworkConfig
  membership : Option Membership
  inbound : Bool
  ztSource : Address
  frame : Frame
  prng : ℕ → UInt64

/-- The value of an entry, and whether a DROP is to be skipped because of it. -/
structure Evaluation where
  thisRuleMatches : Bool
  skipDrop : Bool
deriving DecidableEq

/-- An evaluation that has nothing to do with DROP. -/
def Evaluation.of (b : Bool) : Evaluation := ⟨b, false⟩

namespace FilterContext

variable (c : FilterContext)

/-- The local tag that `std::lower_bound` finds for an id, the tags being sorted by id. -/
def localTag (id : UInt32) : Option Tag :=
  ((c.nconf.tags.dropWhile (·.id < id)).head?).filter (·.id == id)

/-- `membership->getTag`, if there is a membership. -/
def remoteTag (id : UInt32) : Option Tag := c.membership.bind (·.getTag c.nconf id)

/-- MATCH_IPV4_SOURCE and MATCH_IPV4_DEST, for the address at `i`. -/
def matchIPv4 (hardNo : Bool) (ip : BitVec 32) (mask : UInt8) (i : ℕ) : Bool :=
  if c.frame.isIPv4 then (InetAddress.v4 ip mask.toUInt16).containsAddress (c.frame.ip4At i)
  else hardNo

/-- MATCH_IPV6_SOURCE and MATCH_IPV6_DEST, for the address at `i`. -/
def matchIPv6 (hardNo : Bool) (ip : BitVec 128) (mask : UInt8) (i : ℕ) : Bool :=
  if c.frame.isIPv6 then (InetAddress.v6 ip mask.toUInt16).containsAddress (c.frame.ip6At i)
  else hardNo

/-- MATCH_IP_TOS. -/
def matchIpTos (hardNo : Bool) (mask value₀ value₁ : UInt8) : Bool :=
  let f := c.frame
  if f.isIPv4 then
    let tosMasked := f.frameData 1 &&& mask
    value₀ ≤ tosMasked && tosMasked ≤ value₁
  else if f.isIPv6 then
    let tosMasked : UInt8 :=
      ((f.frameData 0 <<< (4 : UInt8)) &&& 0xf0 |||
      (f.frameData 1 >>> (4 : UInt8)) &&& 0x0f) &&& mask
    value₀ ≤ tosMasked && tosMasked ≤ value₁
  else hardNo

/-- MATCH_IP_PROTOCOL. -/
def matchIpProtocol (hardNo : Bool) (ipProtocol : UInt8) : Bool :=
  let f := c.frame
  if f.isIPv4 then ipProtocol == f.frameData 9
  else if f.etherType == Frame.etherTypeIPv6 then
    match f.ipv6GetPayload with
    | some (_, proto) => ipProtocol == UInt8.ofNat proto
    | none => hardNo
  else hardNo

/-- The comparison of MATCH_ICMP with the ICMP header at `pos`. -/
def matchIcmpAt (hardNo hardYes : Bool) (type code flags : UInt8) (pos : ℕ) : Bool :=
  if type = c.frame.frameData pos then
    if flags &&& 1 ≠ 0 then c.frame.frameData (pos + 1) == code else hardYes
  else hardNo

/-- MATCH_ICMP. -/
def matchIcmp (hardNo hardYes : Bool) (type code flags : UInt8) : Bool :=
  let f := c.frame
  if f.isIPv4 then
    if f.frameData 9 = 1 then
      if f.headerLen + 2 ≤ f.frameLen then c.matchIcmpAt hardNo hardYes type code flags f.headerLen
      else hardNo
    else hardNo
  else if f.etherType == Frame.etherTypeIPv6 then
    match f.ipv6GetPayload with
    | some (pos, proto) =>
        if proto = 0x3a ∧ pos + 2 ≤ f.frameLen then c.matchIcmpAt hardNo hardYes type code flags pos
        else hardNo
    | none => hardNo
  else hardNo

/-- MATCH_IP_SOURCE_PORT_RANGE and MATCH_IP_DEST_PORT_RANGE, for the port `offset` bytes into
the transport header.  Over IPv6 port 0 is no port. -/
def matchPortRange (hardNo : Bool) (port₀ port₁ : UInt16) (offset : ℕ) : Bool :=
  let f := c.frame
  if f.isIPv4 then
    if Frame.hasPorts (f.byte 9) ∧ f.headerLen + 4 < f.frameLen then
      let p := f.beAt 2 (f.headerLen + offset)
      port₀.toNat ≤ p && p ≤ port₁.toNat
    else false
  else if f.etherType == Frame.etherTypeIPv6 then
    match f.ipv6GetPayload with
    | some (pos, proto) =>
        if Frame.hasPorts proto ∧ pos + 4 < f.frameLen then
          let p := f.beAt 2 (pos + offset)
          decide (0 < p) && (port₀.toNat ≤ p && p ≤ port₁.toNat)
        else false
    | none => hardNo
  else hardNo

/-- The frame is an IPv6 neighbor solicitation or advertisement long enough to name a
target, of the given ICMPv6 type. -/
def isNeighborMessage (type : UInt8) : Bool :=
  let f := c.frame
  decide (40 + 8 + 16 ≤ f.frameLen) && f.frameData 6 == 0x3a && f.frameData 40 == type

/-- The address a frame claims to come from, nil if it has none that can be relied on. -/
def senderAddress : InetAddress :=
  let f := c.frame
  if f.isIPv4 then f.ip4At 12
  else if f.isIPv6 then
    if c.isNeighborMessage 0x87 then .nil
    else if c.isNeighborMessage 0x88 then f.ip6At (40 + 8)
    else f.ip6At 8
  else if f.etherType == Frame.etherTypeArp && 28 ≤ f.frameLen then f.ip4At 14
  else .nil

/-- A neighbor solicitation, whose sender is taken for authenticated. -/
def isSolicitation : Bool :=
  !c.frame.isIPv4 && c.frame.isIPv6 && c.isNeighborMessage 0x87

/-- Some certificate that counts shows the sender to own its address. -/
def senderIpOwned : Bool :=
  let src := c.senderAddress
  src.isSet && if c.inbound then c.membership.any (·.hasCertificateOfOwnershipForIp c.nconf src)
    else c.nconf.certificatesOfOwnership.any (·.ownsIp src)

/-- Some certificate that counts shows the sender to own its MAC address. -/
def senderMacOwned : Bool :=
  if c.inbound then c.membership.any (·.hasCertificateOfOwnershipForMac c.nconf c.frame.macSource)
  else c.nconf.certificatesOfOwnership.any (·.ownsMac c.frame.macSource)

/-- A characteristic that holds or does not. -/
def characteristic (flag : BitVec 64) (b : Bool) : BitVec 64 := if b then flag else 0

/-- `ZT_RULE_PACKET_CHARACTERISTICS_SENDER_IP_AUTHENTICATED`. -/
def senderIpAuthenticated : BitVec 64 := 0x1000000000000000

/-- `ownershipVerificationMask`, once it is computed. -/
def ownershipVerificationMask : BitVec 64 :=
  characteristic senderIpAuthenticated (c.isSolicitation || c.senderIpOwned)
    ||| characteristic 0x0800000000000000 c.senderMacOwned

/-- The TCP flags in the header at `pos`. -/
def tcpFlagsAt (pos : ℕ) : BitVec 64 :=
  BitVec.ofNat 64 (c.frame.byte (pos + 13)) |||
    (BitVec.ofNat 64 (c.frame.byte (pos + 12) &&& 0x0f) <<< 8)

/-- The TCP flags of a frame, none if it is not TCP.  Over IPv4 the length is not checked. -/
def tcpFlags : BitVec 64 :=
  let f := c.frame
  if f.isIPv4 && f.frameData 9 == 0x06 then c.tcpFlagsAt f.headerLen
  else if f.etherType == Frame.etherTypeIPv6 then
    match f.ipv6GetPayload with
    | some (pos, proto) => if proto = 0x06 ∧ pos + 14 < f.frameLen then c.tcpFlagsAt pos else 0
    | none => 0
  else 0

/-- The characteristics `cf` of a frame. -/
def characteristics : BitVec 64 :=
  characteristic 0x8000000000000000 c.inbound
    ||| characteristic 0x4000000000000000 (Mac.isMulticast c.frame.macDest)
    ||| characteristic 0x2000000000000000 (Mac.isBroadcast c.frame.macDest)
    ||| c.ownershipVerificationMask ||| c.tcpFlags

/-- The comparison of two tags. -/
def compareTags (op : TagsOp) (ltv rtv value : UInt32) : Bool :=
  match op with
  | .difference => (if rtv < ltv then ltv - rtv else rtv - ltv) ≤ value
  | .bitwiseAnd => ltv &&& rtv == value
  | .bitwiseOr => ltv ||| rtv == value
  | .bitwiseXor => ltv ^^^ rtv == value
  | .equal => ltv == value && rtv == value

/-- A tag comparison.  A remote tag that is missing is taken for a match, except on the
strict side, and then a DROP is skipped. -/
def matchTags (hardNo hardYes superAccept : Bool) (op : TagsOp) (id value : UInt32) : Evaluation :=
  match c.localTag id with
  | some tag =>
      match c.remoteTag id with
      | some remote => .of (compareTags op tag.value remote.value value)
      | none => if c.inbound && !superAccept then .of hardNo else ⟨hardYes, true⟩
  | none => .of hardNo

/-- MATCH_TAG_SENDER and MATCH_TAG_RECEIVER. -/
def matchTag (hardNo hardYes superAccept receiver : Bool) (id value : UInt32) : Evaluation :=
  if superAccept then ⟨hardYes, true⟩
  else if receiver != c.inbound then
    match c.remoteTag id with
    | some remote => .of (remote.value == value)
    | none => if receiver then ⟨hardYes, true⟩ else .of hardNo
  else
    match c.localTag id with
    | some tag => .of (tag.value == value)
    | none => .of hardNo

/-- The integer of MATCH_INTEGER_RANGE, zero if it is not all inside the frame. -/
def integerAt (idx : UInt16) (format : UInt8) : UInt64 :=
  let f := c.frame
  let bits := (format &&& 63).toNat + 1
  let bytes := (bits + 8 - 1) / 8
  if format &&& 0x80 = 0 then
    let i := idx.toNat + (8 - bytes)
    let integer := if i + bytes ≤ f.frameLen then UInt64.ofNat (f.beAt bytes i) else 0
    integer &&& (0xffffffffffffffff >>> UInt64.ofNat (64 - bits))
  else
    let i := idx.toNat
    let integer : UInt64 := if i + bytes ≤ f.frameLen then
      (List.range bytes).foldl (fun (acc : UInt64) k =>
        (acc >>> 8) ||| ((f.frameData (i + k)).toUInt64 <<< 56)) 0
      else 0
    integer >>> UInt64.ofNat (64 - bits)

/-- The switch over the match types: the value of entry `rn`, not yet negated. -/
def evaluate (superAccept : Bool) (ztDest : Address) (rn : ℕ) (neg : Bool) (m : Match) :
    Evaluation :=
  let hardYes := !neg
  let hardNo := neg
  let f := c.frame
  match m with
  | .sourceZerotierAddress zt => .of (zt == c.ztSource.setWidth 64)
  | .destZerotierAddress zt => .of (zt == ztDest.setWidth 64)
  | .vlanId vlanId => .of (vlanId == UInt16.ofNat f.vlanId)
  | .vlanPcp vlanPcp => .of (vlanPcp == 0)
  | .vlanDei vlanDei => .of (vlanDei == 0)
  | .macSource mac => .of (mac == f.macSource)
  | .macDest mac => .of (mac == f.macDest)
  | .ipv4Source ip mask => .of (c.matchIPv4 hardNo ip mask 12)
  | .ipv4Dest ip mask => .of (c.matchIPv4 hardNo ip mask 16)
  | .ipv6Source ip mask => .of (c.matchIPv6 hardNo ip mask 8)
  | .ipv6Dest ip mask => .of (c.matchIPv6 hardNo ip mask 24)
  | .ipTos mask v₀ v₁ => .of (c.matchIpTos hardNo mask v₀ v₁)
  | .ipProtocol p => .of (c.matchIpProtocol hardNo p)
  | .etherType e => .of (e == UInt16.ofNat f.etherType)
  | .icmp type code flags => .of (c.matchIcmp hardNo hardYes type code flags)
  | .ipSourcePortRange p₀ p₁ => .of (c.matchPortRange hardNo p₀ p₁ 0)
  | .ipDestPortRange p₀ p₁ => .of (c.matchPortRange hardNo p₀ p₁ 2)
  | .characteristics flags => .of (c.characteristics &&& flags != 0)
  | .frameSizeRange s₀ s₁ => .of (s₀.toNat ≤ f.frameLen && f.frameLen ≤ s₁.toNat)
  | .random p => .of ((c.prng rn).toUInt32 ≤ p)
  | .tags op id value => c.matchTags hardNo hardYes superAccept op id value
  | .tagSender id value => c.matchTag hardNo hardYes superAccept false id value
  | .tagReceiver id value => c.matchTag hardNo hardYes superAccept true id value
  | .integerRange start end_ idx format =>
      let integer := c.integerAt idx format
      .of (start ≤ integer && integer ≤ start + end_.toUInt64)
  | .reserved _ => .of (c.nconf.flags &&& 8 != 0)

end FilterContext

/-! ### The loop -/

/-- `_doZtFilterResult`. -/
inductive FilterResult
  | noMatch
  | drop
  | redirect
  | accept
  | superAccept
deriving DecidableEq

/-- The mutable variables of the loop: its own flags, and the arguments it may set. -/
structure FilterState where
  superAccept : Bool
  thisSetMatches : Bool
  skipDrop : Bool
  ztDest : Address
  cc : Address
  ccLength : ℕ
  ccWatch : Bool
  qosBucket : UInt8
deriving DecidableEq

/-- The arguments that `_doZtFilter` may set, before it runs. -/
structure FilterArgs where
  ztDest : Address
  cc : Address
  ccLength : ℕ
  ccWatch : Bool
  qosBucket : UInt8
deriving DecidableEq

/-- The destination that an action names, if any. -/
def Action.fwd : Action → Option Fwd
  | .tee fwd | .watch fwd | .redirect fwd => some fwd
  | .drop | .accept | .breakOut | .priority _ | .reserved _ => none

namespace FilterContext

variable (c : FilterContext)

/-- The number of bytes that a TEE or WATCH passes on. -/
def teeLength (length : UInt16) : ℕ :=
  if length ≠ 0 then min c.frame.frameLen length.toNat else c.frame.frameLen

/-- TEE, WATCH and REDIRECT, when their set matches. -/
def forward (s : FilterState) (fwd : Fwd)
    (action : FilterState → Address → FilterState × Option FilterResult) :
    FilterState × Option FilterResult :=
  let fwdAddr := Address.ofUInt64 fwd.address
  if fwdAddr = c.ztSource then (s, none)
  else if fwdAddr = c.ownAddress then (s, if c.inbound then some .superAccept else none)
  else if fwdAddr = s.ztDest then (s, none)
  else action s fwdAddr

/-- TEE and WATCH to another node. -/
def tee (watch : Bool) (fwd : Fwd) (s : FilterState) (fwdAddr : Address) :
    FilterState × Option FilterResult :=
  ({ s with cc := fwdAddr, ccLength := c.teeLength fwd.length, ccWatch := watch }, none)

/-- REDIRECT to another node. -/
def redirect (s : FilterState) (fwdAddr : Address) : FilterState × Option FilterResult :=
  ({ s with ztDest := fwdAddr }, some .redirect)

/-- An action whose set matches. -/
def takeAction (s : FilterState) : Action → FilterState × Option FilterResult
  | .priority qosBucket =>
      ({ s with qosBucket := if qosBucket ≤ 8 then qosBucket else 4 }, some .accept)
  | .drop => if s.skipDrop then ({ s with skipDrop := false }, none) else (s, some .drop)
  | .accept => (s, some (if s.superAccept then .superAccept else .accept))
  | .tee fwd => c.forward s fwd (c.tee false fwd)
  | .watch fwd => c.forward s fwd (c.tee true fwd)
  | .redirect fwd => c.forward s fwd redirect
  | .breakOut => (s, some .noMatch)
  | .reserved _ => (s, none)

/-- An action whose set does not match.  If it names this node, what is accepted later is
accepted in spite of its addresses. -/
def passAction (s : FilterState) (a : Action) : FilterState :=
  { s with
    superAccept := s.superAccept
      || (c.inbound && a.fwd.any fun fwd => Address.ofUInt64 fwd.address = c.ownAddress)
    thisSetMatches := true }

/-- A match entry that is evaluated. -/
def foldEntry (s : FilterState) (rn : ℕ) (neg or : Bool) (m : Match) : FilterState :=
  let e := c.evaluate s.superAccept s.ztDest rn neg m
  { s with
    thisSetMatches := if or then s.thisSetMatches || (e.thisRuleMatches ^^ neg)
      else s.thisSetMatches && (e.thisRuleMatches ^^ neg)
    skipDrop := s.skipDrop || e.skipDrop }

/-- One turn of the loop. -/
def ruleStep (rn : ℕ) (r : Rule) (s : FilterState) : FilterState × Option FilterResult :=
  match r.body with
  | .action a => if s.thisSetMatches then c.takeAction s a else (c.passAction s a, none)
  | .entry m =>
      if !s.thisSetMatches && !r.or then (s, none)
      else (c.foldEntry s rn r.not r.or m, none)

/-- The loop from rule `rn` on. -/
def runRules : ℕ → List Rule → FilterState → FilterResult × FilterState
  | _, [], s => (.noMatch, s)
  | rn, r :: rules, s =>
      match c.ruleStep rn r s with
      | (s', some result) => (result, s')
      | (s', none) => runRules (rn + 1) rules s'

/-- `_doZtFilter`: its result and the arguments as it leaves them. -/
def doZtFilter (rules : List Rule) (args : FilterArgs) : FilterResult × FilterArgs :=
  let r := c.runRules 0 rules
    ⟨false, true, false, args.ztDest, args.cc, args.ccLength, args.ccWatch, args.qosBucket⟩
  (r.1, ⟨r.2.ztDest, r.2.cc, r.2.ccLength, r.2.ccWatch, r.2.qosBucket⟩)

end FilterContext

end ZGalaxy
