/-
ZGalaxy/RuleJson.lean

Rules as JSON.

The controller keeps the rules of a network as JSON objects.  What is posted to it is parsed and
rendered anew (`storedRules`), and what is stored is parsed when a configuration is made
(`issuedRules`).  Both leave out whatever does not parse.

`parseRule` and `renderRule` are written by hand for each type, and they are not inverse to each
other everywhere: `Kept` says which rules come back.  The parser never gets to the end of its
branch for INTEGER_RANGE, a PRIORITY action is not rendered at all, and no action keeps its NOT and
OR bits.

Main results: `rules_survive_iff`, which rules come back as they were, and which posted lists are
issued whole; `doZtFilter_sameMeaning`, that lists of the same meaning filter alike.
-/
import ZGalaxy.Filter
import ZGalaxy.InetText

namespace ZGalaxy

open ByteList CString

variable (T : InetText)

/-! ### Rendering -/

/-- An object with the name of a type. -/
def typed (type : String) : Json := (Json.object []).set "type" (.string type)

/-- `Address(a).toString`. -/
def addressText (a : BitVec 64) : Json := .string (hex 10 (Address.ofUInt64 a).toNat)

/-- Six bytes with colons between them. -/
def macText (mac : Mac) : Json :=
  .string (String.ofList (List.intercalate [':']
    ((beBytes 6 mac.toNat).map fun b => hexDigits 2 b.toNat)))

/-- The name of a comparison of tags. -/
def TagsOp.ruleName : TagsOp → String
  | .difference => "MATCH_TAGS_DIFFERENCE"
  | .bitwiseAnd => "MATCH_TAGS_BITWISE_AND"
  | .bitwiseOr => "MATCH_TAGS_BITWISE_OR"
  | .bitwiseXor => "MATCH_TAGS_BITWISE_XOR"
  | .equal => "MATCH_TAGS_EQUAL"

/-- A number as JSON. -/
def number (n : ℕ) : Json := .unsigned (UInt64.ofNat n)

/-- The first `switch` of `_renderRule`. -/
def renderAction : Action → Json
  | .drop => typed "ACTION_DROP"
  | .accept => typed "ACTION_ACCEPT"
  | .tee fwd =>
      (((typed "ACTION_TEE").set "address" (addressText fwd.address)).set "flags"
        (number fwd.flags.toNat)).set "length" (number fwd.length.toNat)
  | .watch fwd =>
      (((typed "ACTION_WATCH").set "address" (addressText fwd.address)).set "flags"
        (number fwd.flags.toNat)).set "length" (number fwd.length.toNat)
  | .redirect fwd =>
      ((typed "ACTION_REDIRECT").set "address" (addressText fwd.address)).set "flags"
        (number fwd.flags.toNat)
  | .breakOut => typed "ACTION_BREAK"
  | .priority _ => .object []
  | .reserved _ => .object []

/-- An object with a range of numbers. -/
def ranged (type : String) (start stop : ℕ) : Json :=
  ((typed type).set "start" (number start)).set "end" (number stop)

/-- An object with a tag. -/
def tagged (type : String) (id value : UInt32) : Json :=
  ((typed type).set "id" (number id.toNat)).set "value" (number value.toNat)

/-- The second `switch` of `_renderRule`. -/
def renderMatch : Match → Json
  | .sourceZerotierAddress zt => (typed "MATCH_SOURCE_ZEROTIER_ADDRESS").set "zt" (addressText zt)
  | .destZerotierAddress zt => (typed "MATCH_DEST_ZEROTIER_ADDRESS").set "zt" (addressText zt)
  | .vlanId v => (typed "MATCH_VLAN_ID").set "vlanId" (number v.toNat)
  | .vlanPcp v => (typed "MATCH_VLAN_PCP").set "vlanPcp" (number v.toNat)
  | .vlanDei v => (typed "MATCH_VLAN_DEI").set "vlanDei" (number v.toNat)
  | .macSource mac => (typed "MATCH_MAC_SOURCE").set "mac" (macText mac)
  | .macDest mac => (typed "MATCH_MAC_DEST").set "mac" (macText mac)
  | .ipv4Source ip mask =>
      (typed "MATCH_IPV4_SOURCE").set "ip"
        (.string ((InetAddress.v4 ip mask.toUInt16).toString T))
  | .ipv4Dest ip mask =>
      (typed "MATCH_IPV4_DEST").set "ip" (.string ((InetAddress.v4 ip mask.toUInt16).toString T))
  | .ipv6Source ip mask =>
      (typed "MATCH_IPV6_SOURCE").set "ip"
        (.string ((InetAddress.v6 ip mask.toUInt16).toString T))
  | .ipv6Dest ip mask =>
      (typed "MATCH_IPV6_DEST").set "ip" (.string ((InetAddress.v6 ip mask.toUInt16).toString T))
  | .ipTos mask value₀ value₁ =>
      (((typed "MATCH_IP_TOS").set "mask" (number mask.toNat)).set "start"
        (number value₀.toNat)).set "end" (number value₁.toNat)
  | .ipProtocol p => (typed "MATCH_IP_PROTOCOL").set "ipProtocol" (number p.toNat)
  | .etherType e => (typed "MATCH_ETHERTYPE").set "etherType" (number e.toNat)
  | .icmp type code flags =>
      ((typed "MATCH_ICMP").set "icmpType" (number type.toNat)).set "icmpCode"
        (if flags &&& 1 ≠ 0 then number code.toNat else .null)
  | .ipSourcePortRange port₀ port₁ => ranged "MATCH_IP_SOURCE_PORT_RANGE" port₀.toNat port₁.toNat
  | .ipDestPortRange port₀ port₁ => ranged "MATCH_IP_DEST_PORT_RANGE" port₀.toNat port₁.toNat
  | .characteristics c => (typed "MATCH_CHARACTERISTICS").set "mask" (.string (hex 16 c.toNat))
  | .frameSizeRange size₀ size₁ => ranged "MATCH_FRAME_SIZE_RANGE" size₀.toNat size₁.toNat
  | .random p => (typed "MATCH_RANDOM").set "probability" (number p.toNat)
  | .tags op id value => tagged op.ruleName id value
  | .tagSender id value => tagged "MATCH_TAG_SENDER" id value
  | .tagReceiver id value => tagged "MATCH_TAG_RECEIVER" id value
  | .integerRange start end_ idx format =>
      ((((((typed "INTEGER_RANGE").set "start" (.string (hex 16 start.toNat))).set "end"
        (.string (hex 16 (start + end_.toUInt64).toNat))).set "idx" (number idx.toNat)).set "little"
        (.boolean (format &&& 0x80 != 0)))).set "bits" (number ((format &&& 63).toNat + 1))
  | .reserved _ => .object []

/-- `_renderRule`.  The NOT and OR bits are written in the block of the matches. -/
def renderRule (rule : Rule) : Json :=
  match rule.body with
  | .action a => renderAction a
  | .entry m =>
      let r := renderMatch T m
      if r.members.isEmpty then r
      else (r.set "not" (.boolean rule.not)).set "or" (.boolean rule.or)

/-! ### Parsing -/

/-- What parsing comes to. -/
inductive Parsed (α : Type)
  | rule (r : α)
  | no
  | throws
deriving DecidableEq

/-- `jsonInt(r[name], 0)`. -/
def intAt (r : Json) (name : String) : UInt64 := jsonInt (r.get name) 0

/-- The bits of an address. -/
def addressBits (a : BitVec 64) : BitVec 64 := a &&& 0xffffffffff

/-- An address in hexadecimal. -/
def addressAt (r : Json) (name : String) : BitVec 64 :=
  addressBits (strtoull 16 (jsonString (r.get name) "0")).toBitVec

/-- The destination of a TEE or WATCH. -/
def fwdAt (r : Json) : Fwd where
  address := addressAt r "address"
  flags := (intAt r "flags").toUInt32
  length := (intAt r "length").toUInt16

/-- The bytes of a text as `Utils::unhex` sees them: a character of several bytes has no digit. -/
def textBytes (s : String) : List Char := s.toList.flatMap fun c => List.replicate c.utf8Size c

/-- Six bytes, after `Utils::cleanMac`.  Those that are missing stay zero. -/
def macAt (r : Json) : Mac :=
  let mac := (textBytes (jsonString (r.get "mac") "0")).filter fun c => c != '-' && c != ':'
  let bytes := unhex 6 mac
  BitVec.ofNat 48 (beNat (bytes ++ List.replicate (6 - bytes.length) 0))

/-- An IPv4 address with its netmask. -/
def ipv4At (pton : InetPton) (r : Json) : BitVec 32 × UInt8 :=
  match InetAddress.fromString pton (jsonString (r.get "ip") "0.0.0.0") with
  | .v4 ip port => (ip, if 32 < port.toUInt8 then 32 else port.toUInt8)
  -- the fields of a `sockaddr_in`, at the places of the other kinds
  | .v6 _ port => (0, if 32 < port.toUInt8 then 32 else port.toUInt8)
  | .nil => (0, 0)

/-- An IPv6 address with its netmask. -/
def ipv6At (pton : InetPton) (r : Json) : BitVec 128 × UInt8 :=
  match InetAddress.fromString pton (jsonString (r.get "ip") "::0") with
  | .v6 ip port => (ip, if 128 < port.toUInt8 then 128 else port.toUInt8)
  | .v4 _ port => (0, if 128 < port.toUInt8 then 128 else port.toUInt8)
  | .nil => (0, 0)

/-- The range of a port or a size: an end that is missing is the start. -/
def rangeAt (r : Json) : UInt16 × UInt16 :=
  let start := (intAt r "start").toUInt16
  (start, (jsonInt (r.get "end") start.toUInt64).toUInt16)

/-- The tag of a comparison. -/
def tagAt (r : Json) : UInt32 × UInt32 := ((intAt r "id").toUInt32, (intAt r "value").toUInt32)

/-- `_parseRule`, what it makes of each type. -/
def parseBody (pton : InetPton) (t : String) (r : Json) : Parsed Body :=
  if t = "ACTION_DROP" then .rule (.action .drop)
  else if t = "ACTION_ACCEPT" then .rule (.action .accept)
  else if t = "ACTION_TEE" then .rule (.action (.tee (fwdAt r)))
  else if t = "ACTION_WATCH" then .rule (.action (.watch (fwdAt r)))
  else if t = "ACTION_REDIRECT" then
    -- the length is not read
    .rule (.action (.redirect { fwdAt r with length := 0 }))
  else if t = "ACTION_BREAK" then .rule (.action .breakOut)
  else if t = "MATCH_SOURCE_ZEROTIER_ADDRESS" then
    .rule (.entry (.sourceZerotierAddress (addressAt r "zt")))
  else if t = "MATCH_DEST_ZEROTIER_ADDRESS" then
    .rule (.entry (.destZerotierAddress (addressAt r "zt")))
  else if t = "MATCH_VLAN_ID" then .rule (.entry (.vlanId (intAt r "vlanId").toUInt16))
  else if t = "MATCH_VLAN_PCP" then .rule (.entry (.vlanPcp (intAt r "vlanPcp").toUInt8))
  else if t = "MATCH_VLAN_DEI" then .rule (.entry (.vlanDei (intAt r "vlanDei").toUInt8))
  else if t = "MATCH_MAC_SOURCE" then .rule (.entry (.macSource (macAt r)))
  else if t = "MATCH_MAC_DEST" then .rule (.entry (.macDest (macAt r)))
  else if t = "MATCH_IPV4_SOURCE" then
    .rule (.entry (.ipv4Source (ipv4At pton r).1 (ipv4At pton r).2))
  else if t = "MATCH_IPV4_DEST" then
    .rule (.entry (.ipv4Dest (ipv4At pton r).1 (ipv4At pton r).2))
  else if t = "MATCH_IPV6_SOURCE" then
    .rule (.entry (.ipv6Source (ipv6At pton r).1 (ipv6At pton r).2))
  else if t = "MATCH_IPV6_DEST" then
    .rule (.entry (.ipv6Dest (ipv6At pton r).1 (ipv6At pton r).2))
  else if t = "MATCH_IP_TOS" then
    .rule (.entry (.ipTos (intAt r "mask").toUInt8 (intAt r "start").toUInt8
      (intAt r "end").toUInt8))
  else if t = "MATCH_IP_PROTOCOL" then
    .rule (.entry (.ipProtocol (intAt r "ipProtocol").toUInt8))
  else if t = "MATCH_ETHERTYPE" then .rule (.entry (.etherType (intAt r "etherType").toUInt16))
  else if t = "MATCH_ICMP" then
    if (r.get "icmpCode").isNull then .rule (.entry (.icmp (intAt r "icmpType").toUInt8 0 0))
    else .rule (.entry (.icmp (intAt r "icmpType").toUInt8 (intAt r "icmpCode").toUInt8 1))
  else if t = "MATCH_IP_SOURCE_PORT_RANGE" then
    .rule (.entry (.ipSourcePortRange (rangeAt r).1 (rangeAt r).2))
  else if t = "MATCH_IP_DEST_PORT_RANGE" then
    .rule (.entry (.ipDestPortRange (rangeAt r).1 (rangeAt r).2))
  else if t = "MATCH_CHARACTERISTICS" then
    if r.contains "mask" then
      if (r.get "mask").isNumber then .rule (.entry (.characteristics (intAt r "mask").toBitVec))
      else
        -- anything but a string throws
        (r.get "mask").text.elim .throws fun tmp =>
          .rule (.entry (.characteristics (strtoull 16 tmp).toBitVec))
    else .rule (.entry (.characteristics 0))
  else if t = "MATCH_FRAME_SIZE_RANGE" then
    .rule (.entry (.frameSizeRange (rangeAt r).1 (rangeAt r).2))
  else if t = "MATCH_RANDOM" then .rule (.entry (.random (intAt r "probability").toUInt32))
  else if t = "MATCH_TAGS_DIFFERENCE" then
    .rule (.entry (.tags .difference (tagAt r).1 (tagAt r).2))
  else if t = "MATCH_TAGS_BITWISE_AND" then
    .rule (.entry (.tags .bitwiseAnd (tagAt r).1 (tagAt r).2))
  else if t = "MATCH_TAGS_BITWISE_OR" then
    .rule (.entry (.tags .bitwiseOr (tagAt r).1 (tagAt r).2))
  else if t = "MATCH_TAGS_BITWISE_XOR" then
    .rule (.entry (.tags .bitwiseXor (tagAt r).1 (tagAt r).2))
  else if t = "MATCH_TAGS_EQUAL" then .rule (.entry (.tags .equal (tagAt r).1 (tagAt r).2))
  else if t = "MATCH_TAG_SENDER" then .rule (.entry (.tagSender (tagAt r).1 (tagAt r).2))
  else if t = "MATCH_TAG_RECEIVER" then .rule (.entry (.tagReceiver (tagAt r).1 (tagAt r).2))
  -- the branch of INTEGER_RANGE fills the arguments in and goes on to the end, which is `false`
  else .no

/-- `_parseRule`. -/
def parseRule (pton : InetPton) (r : Json) : Parsed Rule :=
  if !r.isObject then .no
  else
    match parseBody pton (jsonString (r.get "type") "") r with
    | .rule body => .rule ⟨jsonBool (r.get "not") false, jsonBool (r.get "or") false, body⟩
    | .no => .no
    | .throws => .throws

/-! ### Lists -/

/-- The loop of `networkUpdateFromPostData` over posted rules: at most
`ZT_CONTROLLER_MAX_ARRAY_SIZE` of them are stored; nothing when one throws. -/
def storedRules : ℕ → List Json → Option (List Json)
  | _, [] => some []
  | n, r :: rules =>
      match parseRule T.toInetPton r with
      | .rule rule =>
          if n ≤ 1 then some [renderRule T rule]
          else (storedRules (n - 1) rules).map (renderRule T rule :: ·)
      | .no => storedRules n rules
      | .throws => none

/-- The loop of `_request` over stored rules: at most `ZT_MAX_NETWORK_RULES` of them are issued;
nothing when one throws. -/
def issuedRules (pton : InetPton) : ℕ → List Json → Option (List Rule)
  | _, [] => some []
  | 0, _ :: _ => some []
  | n + 1, r :: rules =>
      match parseRule pton r with
      | .rule rule => (issuedRules pton n rules).map (rule :: ·)
      | .no => issuedRules pton (n + 1) rules
      | .throws => none

/-- `ZT_CONTROLLER_MAX_ARRAY_SIZE`. -/
def controllerMaxArraySize : ℕ := 16384

/-! ### What comes back -/

variable {T}

/-- A destination as it comes back: what does not fit into an address is lost. -/
def Fwd.back (fwd : Fwd) : Fwd := { fwd with address := addressBits fwd.address }

/-- An action as it comes back, if it does. -/
def Action.back : Action → Option Action
  | .drop => some .drop
  | .accept => some .accept
  | .tee fwd => some (.tee fwd.back)
  | .watch fwd => some (.watch fwd.back)
  | .redirect fwd => some (.redirect { fwd.back with length := 0 })
  | .breakOut => some .breakOut
  | .priority _ => none
  | .reserved _ => none

/-- A match as it comes back, if it does. -/
def Match.back : Match → Option Match
  | .sourceZerotierAddress zt => some (.sourceZerotierAddress (addressBits zt))
  | .destZerotierAddress zt => some (.destZerotierAddress (addressBits zt))
  | .ipv4Source ip mask => some (.ipv4Source ip (if 32 < mask then 32 else mask))
  | .ipv4Dest ip mask => some (.ipv4Dest ip (if 32 < mask then 32 else mask))
  | .ipv6Source ip mask => some (.ipv6Source ip (if 128 < mask then 128 else mask))
  | .ipv6Dest ip mask => some (.ipv6Dest ip (if 128 < mask then 128 else mask))
  | .icmp type code flags =>
      some (if flags &&& 1 ≠ 0 then .icmp type code 1 else .icmp type 0 0)
  | .integerRange _ _ _ _ => none
  | .reserved _ => none
  | m => some m

/-- A rule as it comes back, if it does. -/
def Rule.back (rule : Rule) : Parsed Rule :=
  match rule.body with
  | .action a => a.back.elim .no fun a => .rule ⟨false, false, .action a⟩
  | .entry m => m.back.elim .no fun m => .rule ⟨rule.not, rule.or, .entry m⟩

@[simp] theorem jsonInt_number (n : ℕ) (dfl : UInt64) :
    jsonInt (number n) dfl = UInt64.ofNat n := rfl

@[simp] theorem toUInt8_ofNat (v : UInt8) : (UInt64.ofNat v.toNat).toUInt8 = v := by
  have hv := v.toNat_lt
  refine UInt8.toNat_inj.mp ?_
  rw [UInt64.toNat_toUInt8, UInt64.toNat_ofNat']
  omega

@[simp] theorem toUInt16_ofNat (v : UInt16) : (UInt64.ofNat v.toNat).toUInt16 = v := by
  have hv := v.toNat_lt
  refine UInt16.toNat_inj.mp ?_
  rw [UInt64.toNat_toUInt16, UInt64.toNat_ofNat']
  omega

@[simp] theorem toUInt32_ofNat (v : UInt32) : (UInt64.ofNat v.toNat).toUInt32 = v := by
  have hv := v.toNat_lt
  refine UInt32.toNat_inj.mp ?_
  rw [UInt64.toNat_toUInt32, UInt64.toNat_ofNat']
  omega

@[simp] theorem isNull_null : Json.null.isNull = true := rfl

@[simp] theorem isNull_number (n : ℕ) : (number n).isNull = false := rfl

@[simp] theorem get_typed (type name : String) :
    (typed type).get name = if name = "type" then .string type else .null := by
  unfold typed
  rw [Json.get_set, Json.get_object_nil]

@[simp] theorem isObject_typed (type : String) : (typed type).isObject = true := rfl

@[simp] theorem isEmpty_typed (type : String) : (typed type).members.isEmpty = false :=
  Json.isEmpty_set _ _ _

@[simp] theorem jsonString_addressText (a : BitVec 64) (dfl : String) :
    jsonString (addressText a) dfl = hex 10 (Address.ofUInt64 a).toNat := rfl

/-- An address comes back from its text. -/
@[simp] theorem strtoull_address (a : BitVec 64) :
    addressBits (strtoull 16 (hex 10 (Address.ofUInt64 a).toNat)).toBitVec = addressBits a := by
  have hlt : (Address.ofUInt64 a).toNat < 16 ^ 10 := (Address.ofUInt64 a).isLt
  have hmod : (Address.ofUInt64 a).toNat = a.toNat % 1099511627776 := BitVec.toNat_setWidth _ _
  have hmask : (0xffffffffff : BitVec 64).toNat = 2 ^ 40 - 1 := by decide
  rw [strtoull_hex (by decide) hlt, hmod, addressBits, addressBits]
  refine BitVec.eq_of_toNat_eq ?_
  rw [BitVec.toNat_and, BitVec.toNat_and, hmask, Nat.and_two_pow_sub_one_eq_mod,
    Nat.and_two_pow_sub_one_eq_mod]
  show (UInt64.ofNat _).toNat % _ = _
  rw [UInt64.toNat_ofNat']
  omega

/-- 64 bits come back from their text. -/
@[simp] theorem strtoull_characteristics (c : BitVec 64) :
    (strtoull 16 (hex 16 c.toNat)).toBitVec = c := by
  have hlt : c.toNat < 16 ^ 16 := c.isLt
  rw [strtoull_hex le_rfl hlt]
  refine BitVec.eq_of_toNat_eq ?_
  show (UInt64.ofNat _).toNat = _
  rw [UInt64.toNat_ofNat']
  omega

theorem textBytes_ofList {s : List Char} (hs : ∀ c ∈ s, c.utf8Size = 1) :
    textBytes (String.ofList s) = s := by
  unfold textBytes
  rw [String.toList_ofList]
  induction s with
  | nil => rfl
  | cons c s ih =>
      rw [List.flatMap_cons, ih fun c' hc' => hs c' (List.mem_cons_of_mem c hc'),
        hs c List.mem_cons_self]
      rfl

/-- Characters of a MAC: digits, and the colons that `cleanMac` takes out. -/
theorem filter_hexDigits (n v : ℕ) :
    (hexDigits n v).filter (fun c => c != '-' && c != ':') = hexDigits n v := by
  have hdigit : ∀ d < 16, (Nat.digitChar d != '-' && Nat.digitChar d != ':') = true := by decide
  refine List.filter_eq_self.mpr fun c hc => ?_
  obtain ⟨d, hd, rfl⟩ := mem_hexDigits hc
  exact hdigit d hd

theorem filter_intercalate (l : List (List Char))
    (hl : ∀ s ∈ l, s.filter (fun c => c != '-' && c != ':') = s) :
    (List.intercalate [':'] l).filter (fun c => c != '-' && c != ':') = l.flatten := by
  induction l with
  | nil => rfl
  | cons s l ih =>
      have hs := hl s List.mem_cons_self
      have ih := ih fun t ht => hl t (List.mem_cons_of_mem s ht)
      cases l with
      | nil =>
          rw [List.intercalate_singleton, hs, List.flatten_cons, List.flatten_nil, List.append_nil]
      | cons t l =>
          have hcolon : [':'].filter (fun c => c != '-' && c != ':') = [] := rfl
          rw [List.intercalate_cons_cons, List.filter_append, List.filter_append, hs, hcolon, ih,
            List.append_nil]
          rfl

/-- Six bytes come back from their text. -/
theorem macAt_text {r : Json} {mac : Mac} (h : r.get "mac" = macText mac) : macAt r = mac := by
  have hsize : ∀ d < 16, (Nat.digitChar d).utf8Size = 1 := by decide
  have hlength := length_beBytes 6 mac.toNat
  have hbytes : textBytes (jsonString (macText mac) "0") = List.intercalate [':']
      ((beBytes 6 mac.toNat).map fun b => hexDigits 2 b.toNat) := by
    refine textBytes_ofList fun c hc => ?_
    rcases mem_intercalate hc with rfl | ⟨s, hs, hc⟩
    · decide
    · obtain ⟨b, -, rfl⟩ := List.mem_map.mp hs
      obtain ⟨d, hd, rfl⟩ := mem_hexDigits hc
      exact hsize d hd
  have hfilter :
      (List.intercalate [':'] ((beBytes 6 mac.toNat).map fun b => hexDigits 2 b.toNat)).filter
      (fun c => c != '-' && c != ':') = (beBytes 6 mac.toNat).flatMap fun b =>
        hexDigits 2 b.toNat := by
    rw [filter_intercalate, List.flatMap_def]
    intro s hs
    obtain ⟨b, -, rfl⟩ := List.mem_map.mp hs
    exact filter_hexDigits 2 b.toNat
  have hunhex := unhex_flatMap (beBytes 6 mac.toNat)
  rw [hlength] at hunhex
  unfold macAt
  rw [h, hbytes]
  dsimp only
  rw [hfilter, hunhex, hlength, Nat.sub_self, List.replicate_zero, List.append_nil, beNat_beBytes]
  refine BitVec.eq_of_toNat_eq ?_
  rw [BitVec.toNat_ofNat]
  have hlt := mac.isLt
  omega

theorem ipv4At_text (hT : T.Lawful) {r : Json} {ip : BitVec 32} {mask : UInt8}
    (h : r.get "ip" = .string ((InetAddress.v4 ip mask.toUInt16).toString T)) :
    ipv4At T.toInetPton r = (ip, if 32 < mask then 32 else mask) := by
  have hmask : mask.toUInt16.toUInt8 = mask := UInt8.toUInt8_toUInt16 mask
  unfold ipv4At
  rw [h, jsonString_string, InetAddress.fromString_toString hT]
  simp only [hmask]

theorem ipv6At_text (hT : T.Lawful) {r : Json} {ip : BitVec 128} {mask : UInt8}
    (h : r.get "ip" = .string ((InetAddress.v6 ip mask.toUInt16).toString T)) :
    ipv6At T.toInetPton r = (ip, if 128 < mask then 128 else mask) := by
  have hmask : mask.toUInt16.toUInt8 = mask := UInt8.toUInt8_toUInt16 mask
  unfold ipv6At
  rw [h, jsonString_string, InetAddress.fromString_toString hT]
  simp only [hmask]

theorem parseRule_empty (pton : InetPton) : parseRule pton (.object []) = .no := by
  have hobj : (Json.object []).isObject = true := rfl
  simp [parseRule, parseBody, hobj]

/-- **What comes back** of an action. -/
theorem parse_renderAction (n o : Bool) (a : Action) :
    parseRule T.toInetPton (renderRule T ⟨n, o, .action a⟩) = Rule.back ⟨n, o, .action a⟩ := by
  cases a with
  | priority _ => exact parseRule_empty _
  | reserved _ => exact parseRule_empty _
  | _ =>
      simp [renderRule, renderAction, parseRule, parseBody, Json.get_set, addressAt, intAt, fwdAt,
        Rule.back, Action.back, Fwd.back]

/-- **What comes back** of a match. -/
theorem parse_renderMatch (hT : T.Lawful) (n o : Bool) (m : Match) :
    parseRule T.toInetPton (renderRule T ⟨n, o, .entry m⟩) = Rule.back ⟨n, o, .entry m⟩ := by
  have hmac : ∀ type mac, macAt ((((typed type).set "mac" (macText mac)).set "not" (.boolean n)).set
      "or" (.boolean o)) = mac := by
    intro type mac
    exact macAt_text (by simp [Json.get_set])
  have hip4 : ∀ type ip (mask : UInt8), ipv4At T.toInetPton ((((typed type).set "ip"
      (.string ((InetAddress.v4 ip mask.toUInt16).toString T))).set "not" (.boolean n)).set
      "or" (.boolean o)) = (ip, if 32 < mask then 32 else mask) := by
    intro type ip mask
    exact ipv4At_text hT (by simp [Json.get_set])
  have hip6 : ∀ type ip (mask : UInt8), ipv6At T.toInetPton ((((typed type).set "ip"
      (.string ((InetAddress.v6 ip mask.toUInt16).toString T))).set "not" (.boolean n)).set
      "or" (.boolean o)) = (ip, if 128 < mask then 128 else mask) := by
    intro type ip mask
    exact ipv6At_text hT (by simp [Json.get_set])
  cases m with
  | tags op id value =>
      cases op <;>
        simp [renderRule, renderMatch, tagged, TagsOp.ruleName, parseRule, parseBody, Json.get_set,
          intAt, tagAt, Rule.back, Match.back]
  | icmp type code flags =>
      by_cases hflags : flags &&& 1 = 0 <;>
        simp [renderRule, renderMatch, parseRule, parseBody, Json.get_set, intAt, Rule.back,
          Match.back, hflags]
  | reserved _ => exact parseRule_empty _
  | _ =>
      simp [renderRule, renderMatch, ranged, tagged, parseRule, parseBody, Json.get_set,
        Json.contains_set, Json.isNumber, Json.text, addressAt, intAt, rangeAt, tagAt, hmac, hip4,
        hip6, Rule.back, Match.back]

theorem parse_render (hT : T.Lawful) (rule : Rule) :
    parseRule T.toInetPton (renderRule T rule) = rule.back := by
  obtain ⟨n, o, body⟩ := rule
  cases body with
  | action a => exact parse_renderAction n o a
  | entry m => exact parse_renderMatch hT n o m

/-! ### Which rules come back -/

/-- A destination whose address has 40 bits. -/
def Fwd.Kept (fwd : Fwd) : Prop := fwd.address.toNat < 0x10000000000

/-- The actions that come back. -/
def Action.Kept : Action → Prop
  | .tee fwd => fwd.Kept
  | .watch fwd => fwd.Kept
  | .redirect fwd => fwd.Kept ∧ fwd.length = 0
  | .priority _ => False
  | .reserved _ => False
  | _ => True

/-- The matches that come back. -/
def Match.Kept : Match → Prop
  | .sourceZerotierAddress zt => zt.toNat < 0x10000000000
  | .destZerotierAddress zt => zt.toNat < 0x10000000000
  | .ipv4Source _ mask => mask ≤ 32
  | .ipv4Dest _ mask => mask ≤ 32
  | .ipv6Source _ mask => mask ≤ 128
  | .ipv6Dest _ mask => mask ≤ 128
  | .icmp _ code flags => flags = 1 ∨ flags = 0 ∧ code = 0
  | .integerRange _ _ _ _ => False
  | .reserved _ => False
  | _ => True

/-- The rules that come back as they were. -/
def Rule.Kept (rule : Rule) : Prop :=
  match rule.body with
  | .action a => rule.not = false ∧ rule.or = false ∧ a.Kept
  | .entry m => m.Kept

theorem addressBits_eq_iff (a : BitVec 64) : addressBits a = a ↔ a.toNat < 0x10000000000 := by
  have hmask : (0xffffffffff : BitVec 64).toNat = 2 ^ 40 - 1 := by decide
  rw [addressBits, ← BitVec.toNat_inj, BitVec.toNat_and, hmask, Nat.and_two_pow_sub_one_eq_mod]
  exact Nat.mod_eq_iff_lt (by decide)

theorem Fwd.back_eq_iff (fwd : Fwd) : fwd.back = fwd ↔ fwd.Kept := by
  obtain ⟨address, flags, length⟩ := fwd
  rw [Fwd.Kept, ← addressBits_eq_iff, Fwd.back, Fwd.mk.injEq]
  exact ⟨fun h => h.1, fun h => ⟨h, rfl, rfl⟩⟩

theorem mask_eq_iff (bound mask : UInt8) :
    (if bound < mask then bound else mask) = mask ↔ mask ≤ bound := by
  split_ifs with h
  · refine iff_of_false (fun heq => ?_) (UInt8.not_le.mpr h)
    rw [heq] at h
    exact UInt8.lt_irrefl _ h
  · exact iff_of_true rfl (UInt8.not_lt.mp h)

theorem Action.back_eq_iff (a : Action) : a.back = some a ↔ a.Kept := by
  cases a with
  | tee fwd => exact (Option.some_inj.trans (by rw [Action.tee.injEq])).trans fwd.back_eq_iff
  | watch fwd => exact (Option.some_inj.trans (by rw [Action.watch.injEq])).trans fwd.back_eq_iff
  | redirect fwd =>
      obtain ⟨address, flags, length⟩ := fwd
      show some (Action.redirect ⟨addressBits address, flags, 0⟩) =
        some (.redirect ⟨address, flags, length⟩) ↔
        address.toNat < 0x10000000000 ∧ length = 0
      rw [Option.some_inj, Action.redirect.injEq, Fwd.mk.injEq, addressBits_eq_iff]
      exact ⟨fun h => ⟨h.1, h.2.2.symm⟩, fun h => ⟨h.1, rfl, h.2.symm⟩⟩
  | priority _ => exact iff_of_false (fun h => nomatch h) id
  | reserved _ => exact iff_of_false (fun h => nomatch h) id
  | _ => exact iff_of_true rfl trivial

theorem icmp_back_iff (type code flags : UInt8) :
    (if flags &&& 1 ≠ 0 then Match.icmp type code 1 else .icmp type 0 0) = .icmp type code flags ↔
      flags = 1 ∨ flags = 0 ∧ code = 0 := by
  split_ifs with h
  · rw [Match.icmp.injEq]
    constructor
    · rintro ⟨-, -, rfl⟩
      exact .inl rfl
    · rintro (rfl | ⟨rfl, -⟩)
      · exact ⟨rfl, rfl, rfl⟩
      · exact absurd rfl h
  · rw [Match.icmp.injEq]
    constructor
    · rintro ⟨-, rfl, rfl⟩
      exact .inr ⟨rfl, rfl⟩
    · rintro (rfl | ⟨rfl, rfl⟩)
      · exact absurd (by decide) h
      · exact ⟨rfl, rfl, rfl⟩

theorem Match.back_eq_iff (m : Match) : m.back = some m ↔ m.Kept := by
  cases m with
  | sourceZerotierAddress zt =>
      exact (Option.some_inj.trans (by rw [Match.sourceZerotierAddress.injEq])).trans
        (addressBits_eq_iff zt)
  | destZerotierAddress zt =>
      exact (Option.some_inj.trans (by rw [Match.destZerotierAddress.injEq])).trans
        (addressBits_eq_iff zt)
  | ipv4Source ip mask =>
      refine (Option.some_inj.trans ?_).trans (mask_eq_iff 32 mask)
      rw [Match.ipv4Source.injEq]
      exact and_iff_right rfl
  | ipv4Dest ip mask =>
      refine (Option.some_inj.trans ?_).trans (mask_eq_iff 32 mask)
      rw [Match.ipv4Dest.injEq]
      exact and_iff_right rfl
  | ipv6Source ip mask =>
      refine (Option.some_inj.trans ?_).trans (mask_eq_iff 128 mask)
      rw [Match.ipv6Source.injEq]
      exact and_iff_right rfl
  | ipv6Dest ip mask =>
      refine (Option.some_inj.trans ?_).trans (mask_eq_iff 128 mask)
      rw [Match.ipv6Dest.injEq]
      exact and_iff_right rfl
  | icmp type code flags => exact Option.some_inj.trans (icmp_back_iff type code flags)
  | integerRange _ _ _ _ => exact iff_of_false (fun h => nomatch h) id
  | reserved _ => exact iff_of_false (fun h => nomatch h) id
  | _ => exact iff_of_true rfl trivial

/-- **Which rules come back** as they were. -/
theorem Rule.back_eq_iff (rule : Rule) : rule.back = .rule rule ↔ rule.Kept := by
  obtain ⟨n, o, body⟩ := rule
  cases body with
  | action a =>
      have hback : Rule.back ⟨n, o, .action a⟩
          = a.back.elim .no fun a' => .rule ⟨false, false, .action a'⟩ := rfl
      have hkept : Rule.Kept ⟨n, o, .action a⟩ = (n = false ∧ o = false ∧ a.Kept) := rfl
      rw [hback, hkept]
      rw [← a.back_eq_iff]
      cases a.back with
      | none => exact iff_of_false (fun h => nomatch h) fun h => nomatch h.2.2
      | some a' =>
          rw [Option.elim_some, Parsed.rule.injEq, Rule.mk.injEq, Body.action.injEq,
            Option.some_inj]
          exact and_congr eq_comm (and_congr eq_comm Iff.rfl)
  | entry m =>
      have hback :
          Rule.back ⟨n, o, .entry m⟩ = m.back.elim .no fun m' => .rule ⟨n, o, .entry m'⟩ := rfl
      have hkept : Rule.Kept ⟨n, o, .entry m⟩ = m.Kept := rfl
      rw [hback, hkept]
      rw [← m.back_eq_iff]
      cases m.back with
      | none => exact iff_of_false (fun h => nomatch h) fun h => nomatch h
      | some m' =>
          rw [Option.elim_some, Parsed.rule.injEq, Rule.mk.injEq, Body.entry.injEq, Option.some_inj]
          exact ⟨fun h => h.2.2, fun h => ⟨rfl, rfl, h⟩⟩

/-! ### What parses -/

/-- The names of the types that the parser knows and gets to the end of. -/
def ruleNames : List String :=
  ["ACTION_DROP", "ACTION_ACCEPT", "ACTION_TEE", "ACTION_WATCH", "ACTION_REDIRECT", "ACTION_BREAK",
    "MATCH_SOURCE_ZEROTIER_ADDRESS", "MATCH_DEST_ZEROTIER_ADDRESS", "MATCH_VLAN_ID",
    "MATCH_VLAN_PCP", "MATCH_VLAN_DEI", "MATCH_MAC_SOURCE", "MATCH_MAC_DEST", "MATCH_IPV4_SOURCE",
    "MATCH_IPV4_DEST", "MATCH_IPV6_SOURCE", "MATCH_IPV6_DEST", "MATCH_IP_TOS", "MATCH_IP_PROTOCOL",
    "MATCH_ETHERTYPE", "MATCH_ICMP", "MATCH_IP_SOURCE_PORT_RANGE", "MATCH_IP_DEST_PORT_RANGE",
    "MATCH_CHARACTERISTICS", "MATCH_FRAME_SIZE_RANGE", "MATCH_RANDOM", "MATCH_TAGS_DIFFERENCE",
    "MATCH_TAGS_BITWISE_AND", "MATCH_TAGS_BITWISE_OR", "MATCH_TAGS_BITWISE_XOR", "MATCH_TAGS_EQUAL",
    "MATCH_TAG_SENDER", "MATCH_TAG_RECEIVER"]

/-- The bits of MATCH_CHARACTERISTICS are left out, a number or a text. -/
def ReadableMask (r : Json) : Prop :=
  r.contains "mask" = false ∨ (r.get "mask").isNumber = true ∨ (r.get "mask").text.isSome = true

/-- An object whose type has a name the parser knows. -/
def Named (r : Json) : Prop :=
  r.isObject = true ∧ jsonString (r.get "type") "" ∈ ruleNames ∧
    (jsonString (r.get "type") "" = "MATCH_CHARACTERISTICS" → ReadableMask r)

/-- Rules that the rule engine takes alike: it reads the NOT and OR bits of matches only. -/
structure SameMeaning (rule rule' : Rule) : Prop where
  body : rule'.body = rule.body
  bits : ∀ m, rule.body = .entry m → rule'.not = rule.not ∧ rule'.or = rule.or

theorem parseBody_no {pton : InetPton} {t : String} {r : Json} (ht : t ∉ ruleNames) :
    parseBody pton t r = .no := by
  simp only [ruleNames, List.mem_cons, List.not_mem_nil, or_false, not_or] at ht
  simp only [parseBody, ht, if_false]

theorem parseBody_characteristics {pton : InetPton} {r : Json} :
    (∃ body, parseBody pton "MATCH_CHARACTERISTICS" r = .rule body) ↔ ReadableMask r := by
  have hparse : parseBody pton "MATCH_CHARACTERISTICS" r
      = if r.contains "mask" then
          if (r.get "mask").isNumber then
            .rule (.entry (.characteristics (intAt r "mask").toBitVec))
          else (r.get "mask").text.elim .throws fun tmp =>
            .rule (.entry (.characteristics (strtoull 16 tmp).toBitVec))
        else .rule (.entry (.characteristics 0)) := by
    simp only [parseBody, String.reduceEq, if_false, if_true]
  rw [hparse, ReadableMask]
  split_ifs with hmask hnumber
  · simp [hmask, hnumber]
  · cases htext : (r.get "mask").text <;> simp [hmask, hnumber]
  · simp [hmask]

theorem parseBody_icmp {pton : InetPton} {r : Json} :
    ∃ body, parseBody pton "MATCH_ICMP" r = .rule body := by
  simp only [parseBody, String.reduceEq, if_false, if_true]
  split_ifs
  · exact ⟨_, rfl⟩
  · exact ⟨_, rfl⟩

theorem parseBody_named {pton : InetPton} {t : String} {r : Json} (ht : t ∈ ruleNames)
    (hne : t ≠ "MATCH_CHARACTERISTICS") : ∃ body, parseBody pton t r = .rule body := by
  by_cases hicmp : t = "MATCH_ICMP"
  · rw [hicmp]
    exact parseBody_icmp
  · simp only [ruleNames, List.mem_cons, List.not_mem_nil, or_false, hne, hicmp, false_or] at ht
    rcases ht with rfl | rfl | rfl | rfl | rfl | rfl | rfl | rfl | rfl | rfl | rfl | rfl | rfl | rfl |
        rfl | rfl | rfl | rfl | rfl | rfl | rfl | rfl | rfl | rfl | rfl | rfl | rfl | rfl | rfl |
        rfl | rfl <;>
      simp only [parseBody, String.reduceEq, if_false, if_true, Parsed.rule.injEq, exists_eq']

/-- **What parses** is what is named. -/
theorem named_iff (pton : InetPton) (r : Json) :
    Named r ↔ ∃ rule, parseRule pton r = .rule rule := by
  have hbody : (∃ body, parseBody pton (jsonString (r.get "type") "") r = .rule body) ↔
      jsonString (r.get "type") "" ∈ ruleNames ∧
        (jsonString (r.get "type") "" = "MATCH_CHARACTERISTICS" → ReadableMask r) := by
    by_cases hmem : jsonString (r.get "type") "" ∈ ruleNames
    · by_cases hc : jsonString (r.get "type") "" = "MATCH_CHARACTERISTICS"
      · rw [hc, parseBody_characteristics]
        exact ⟨fun h => ⟨by simp [ruleNames], fun _ => h⟩, fun h => h.2 rfl⟩
      · exact ⟨fun _ => ⟨hmem, fun h => absurd h hc⟩, fun _ => parseBody_named hmem hc⟩
    · rw [parseBody_no hmem]
      exact ⟨fun ⟨_, h⟩ => (nomatch h), fun h => absurd h.1 hmem⟩
  unfold Named
  rw [← hbody]
  unfold parseRule
  cases r.isObject with
  | false => exact ⟨fun h => (nomatch h.1), fun ⟨_, h⟩ => (nomatch h)⟩
  | true =>
      cases parseBody pton (jsonString (r.get "type") "") r with
      | rule body => exact ⟨fun _ => ⟨_, rfl⟩, fun _ => ⟨rfl, body, rfl⟩⟩
      | no => exact ⟨fun ⟨_, _, h⟩ => (nomatch h), fun ⟨_, h⟩ => (nomatch h)⟩
      | throws => exact ⟨fun ⟨_, _, h⟩ => (nomatch h), fun ⟨_, h⟩ => (nomatch h)⟩

/-- What the parser makes comes back. -/
def Body.Kept : Body → Prop
  | .action a => a.Kept
  | .entry m => m.Kept

theorem addressAt_lt (r : Json) (name : String) : (addressAt r name).toNat < 0x10000000000 := by
  rw [← addressBits_eq_iff, addressAt, addressBits, addressBits, BitVec.and_assoc, BitVec.and_self]

theorem ipv4At_le (pton : InetPton) (r : Json) : (ipv4At pton r).2 ≤ 32 := by
  have hclip : ∀ port : UInt8, (if 32 < port then 32 else port) ≤ 32 := by
    intro port
    split_ifs with h
    · exact UInt8.le_refl 32
    · exact UInt8.not_lt.mp h
  unfold ipv4At
  split
  · exact hclip _
  · exact hclip _
  · decide

theorem ipv6At_le (pton : InetPton) (r : Json) : (ipv6At pton r).2 ≤ 128 := by
  have hclip : ∀ port : UInt8, (if 128 < port then 128 else port) ≤ 128 := by
    intro port
    split_ifs with h
    · exact UInt8.le_refl 128
    · exact UInt8.not_lt.mp h
  unfold ipv6At
  split
  · exact hclip _
  · exact hclip _
  · decide

theorem parseBody_icmp_kept {pton : InetPton} {r : Json} {body : Body}
    (h : parseBody pton "MATCH_ICMP" r = .rule body) : body.Kept := by
  simp only [parseBody, String.reduceEq, if_false, if_true] at h
  split_ifs at h
  · cases h
    exact .inr ⟨rfl, rfl⟩
  · cases h
    exact .inl rfl

theorem parseBody_characteristics_kept {pton : InetPton} {r : Json} {body : Body}
    (h : parseBody pton "MATCH_CHARACTERISTICS" r = .rule body) : body.Kept := by
  simp only [parseBody, String.reduceEq, if_false, if_true] at h
  split_ifs at h
  · cases h
    trivial
  · cases htext : (r.get "mask").text with
    | none =>
        rw [htext] at h
        cases h
    | some tmp =>
        rw [htext] at h
        cases h
        trivial
  · cases h
    trivial

/-- **What the parser makes** can be rendered and parsed again. -/
theorem parseBody_kept {pton : InetPton} {t : String} {r : Json} {body : Body}
    (h : parseBody pton t r = .rule body) : body.Kept := by
  have ht : t ∈ ruleNames := by
    by_contra hno
    rw [parseBody_no hno] at h
    cases h
  by_cases hicmp : t = "MATCH_ICMP"
  · subst hicmp
    exact parseBody_icmp_kept h
  by_cases hc : t = "MATCH_CHARACTERISTICS"
  · subst hc
    exact parseBody_characteristics_kept h
  simp only [ruleNames, List.mem_cons, List.not_mem_nil, or_false, hicmp, hc, false_or] at ht
  rcases ht with rfl | rfl | rfl | rfl | rfl | rfl | rfl | rfl | rfl | rfl | rfl | rfl | rfl | rfl |
      rfl | rfl | rfl | rfl | rfl | rfl | rfl | rfl | rfl | rfl | rfl | rfl | rfl | rfl | rfl | rfl |
      rfl <;>
    simp only [parseBody, String.reduceEq, if_false, if_true, Parsed.rule.injEq] at h <;>
    subst h <;>
    first
      | trivial
      | exact addressAt_lt r _
      | exact ⟨addressAt_lt r _, rfl⟩
      | exact ipv4At_le pton r
      | exact ipv6At_le pton r

/-- A rule that was parsed comes back with the same meaning. -/
theorem back_of_parsed {pton : InetPton} {r : Json} {rule : Rule}
    (h : parseRule pton r = .rule rule) :
    ∃ rule', rule.back = .rule rule' ∧ SameMeaning rule rule' := by
  have hkept : rule.body.Kept := by
    unfold parseRule at h
    split_ifs at h
    cases hbody : parseBody pton (jsonString (r.get "type") "") r with
    | rule body =>
        rw [hbody] at h
        cases h
        exact parseBody_kept hbody
    | no =>
        rw [hbody] at h
        cases h
    | throws =>
        rw [hbody] at h
        cases h
  obtain ⟨n, o, body⟩ := rule
  cases body with
  | action a =>
      refine ⟨⟨false, false, .action a⟩, ?_, rfl, fun m hm => nomatch hm⟩
      show a.back.elim _ _ = _
      rw [a.back_eq_iff.mpr hkept]
      rfl
  | entry m =>
      refine ⟨⟨n, o, .entry m⟩, ?_, rfl, fun _ _ => ⟨rfl, rfl⟩⟩
      show m.back.elim _ _ = _
      rw [m.back_eq_iff.mpr hkept]
      rfl

/-! ### Lists of rules -/

/-- What was parsed, if anything. -/
def Parsed.get {α : Type} : Parsed α → Option α
  | rule r => some r
  | no => none
  | throws => none

theorem Rule.back_ne_throws (rule : Rule) : rule.back ≠ .throws := by
  obtain ⟨n, o, body⟩ := rule
  cases body with
  | action a =>
      show a.back.elim _ _ ≠ _
      cases a.back <;> exact fun h => nomatch h
  | entry m =>
      show m.back.elim _ _ ≠ _
      cases m.back <;> exact fun h => nomatch h

/-- What is stored: what parses, rendered, as far as the bound. -/
theorem storedRules_eq {n : ℕ} {rules stored : List Json} (hn : n ≠ 0)
    (h : storedRules T n rules = some stored) :
    stored = ((rules.filterMap fun r => (parseRule T.toInetPton r).get).take n).map
      (renderRule T) := by
  -- on the rules of the record: one that is not parsed takes no place
  induction rules generalizing n stored with
  | nil =>
      cases h
      simp
  | cons r rules ih =>
      rw [storedRules] at h
      cases hr : parseRule T.toInetPton r with
      | rule rule =>
          rw [hr] at h
          rw [List.filterMap_cons_some (b := rule) (by rw [hr]; rfl)]
          obtain ⟨n, rfl⟩ := Nat.exists_eq_succ_of_ne_zero hn
          rw [List.take_succ_cons, List.map_cons]
          dsimp only at h
          split_ifs at h with hone
          · have hzero : n = 0 := by omega
            cases h
            rw [hzero, List.take_zero]
            rfl
          · obtain ⟨stored', hs, rfl⟩ := Option.map_eq_some_iff.mp h
            rw [Nat.succ_sub_one] at hs
            rw [ih (by omega) hs]
      | no =>
          rw [hr] at h
          rw [List.filterMap_cons_none (by rw [hr]; rfl)]
          exact ih hn h
      | throws =>
          rw [hr] at h
          cases h

/-- What is issued: what parses, as far as the bound. -/
theorem issuedRules_eq {pton : InetPton} {rules : List Json}
    (hno : ∀ r ∈ rules, parseRule pton r ≠ .throws) (n : ℕ) :
    issuedRules pton n rules = some ((rules.filterMap fun r => (parseRule pton r).get).take n) := by
  induction rules generalizing n with
  | nil => cases n <;> rfl
  | cons r rules ih =>
      have ih := ih fun r' hr' => hno r' (List.mem_cons_of_mem r hr')
      cases n with
      | zero => rfl
      | succ n =>
          rw [issuedRules]
          cases hr : parseRule pton r with
          | rule rule =>
              dsimp only
              rw [ih n, List.filterMap_cons_some (b := rule) (by rw [hr]; rfl), List.take_succ_cons]
              rfl
          | no =>
              dsimp only
              rw [ih (n + 1), List.filterMap_cons_none (by rw [hr]; rfl)]
          | throws => exact absurd hr (hno r List.mem_cons_self)

/-- What is issued of what was posted. -/
theorem issued_of_stored (hT : T.Lawful) {rules stored : List Json}
    (h : storedRules T controllerMaxArraySize rules = some stored) :
    issuedRules T.toInetPton maxNetworkRules stored
      = some ((((rules.filterMap fun r => (parseRule T.toInetPton r).get).take
          controllerMaxArraySize).filterMap fun rule => rule.back.get).take maxNetworkRules) := by
  have hstored := storedRules_eq (by decide) h
  have hno : ∀ r ∈ stored, parseRule T.toInetPton r ≠ .throws := by
    intro r hr
    rw [hstored] at hr
    obtain ⟨rule, -, rfl⟩ := List.mem_map.mp hr
    rw [parse_render hT]
    exact rule.back_ne_throws
  rw [issuedRules_eq hno, hstored, List.filterMap_map]
  congr 3
  funext rule
  exact congrArg Parsed.get (parse_render hT rule)

/-- A posted rule and the rule it is issued as. -/
def IssuedAs (pton : InetPton) (r : Json) (rule' : Rule) : Prop :=
  ∃ rule, parseRule pton r = .rule rule ∧ SameMeaning rule rule'

/-- Rules that parse are issued one for one. -/
theorem forall₂_issued {pton : InetPton} {rules : List Json} (h : ∀ r ∈ rules, Named r) :
    List.Forall₂ (IssuedAs pton) rules
      ((rules.filterMap fun r => (parseRule pton r).get).filterMap fun rule => rule.back.get) := by
  induction rules with
  | nil => exact .nil
  | cons r rules ih =>
      have ih := ih fun r' hr' => h r' (List.mem_cons_of_mem r hr')
      obtain ⟨rule, hr⟩ := (named_iff pton r).mp (h r List.mem_cons_self)
      obtain ⟨rule', hback, hsame⟩ := back_of_parsed hr
      rw [List.filterMap_cons_some (b := rule) (by rw [hr]; rfl),
        List.filterMap_cons_some (b := rule') (by rw [hback]; rfl)]
      exact .cons ⟨rule, hr, hsame⟩ ih

/-- The rule engine takes rules of the same meaning alike. -/
theorem SameMeaning.ruleStep {rule rule' : Rule} (h : SameMeaning rule rule') (c : FilterContext)
    (rn : ℕ) (s : FilterState) : c.ruleStep rn rule' s = c.ruleStep rn rule s := by
  unfold FilterContext.ruleStep
  rw [h.body]
  cases hbody : rule.body with
  | action a => rfl
  | entry m =>
      obtain ⟨hnot, hor⟩ := h.bits m hbody
      rw [hnot, hor]

theorem runRules_sameMeaning {rules rules' : List Rule} (h : List.Forall₂ SameMeaning rules rules')
    (c : FilterContext) (rn : ℕ) (s : FilterState) :
    c.runRules rn rules' s = c.runRules rn rules s := by
  induction h generalizing rn s with
  | nil => rfl
  | cons hr _ ih =>
      unfold FilterContext.runRules
      rw [hr.ruleStep]
      split
      · rfl
      · exact ih _ _

/-- **Lists of the same meaning** filter alike. -/
theorem doZtFilter_sameMeaning {rules rules' : List Rule}
    (h : List.Forall₂ SameMeaning rules rules') (c : FilterContext) (args : FilterArgs) :
    c.doZtFilter rules' args = c.doZtFilter rules args := by
  unfold FilterContext.doZtFilter
  rw [runRules_sameMeaning h]

/-- **The rules that survive.**  A rule comes back from its rendering as it was exactly when it is
`Kept`.  A list that was posted and stored is issued with the same length and meaning exactly when
all of it has names and it is not too long. -/
theorem rules_survive_iff (hT : T.Lawful) :
    (∀ rule : Rule, parseRule T.toInetPton (renderRule T rule) = .rule rule ↔ rule.Kept) ∧
      ∀ rules stored : List Json, storedRules T controllerMaxArraySize rules = some stored →
        ((∃ issued, issuedRules T.toInetPton maxNetworkRules stored = some issued ∧
            List.Forall₂ (IssuedAs T.toInetPton) rules issued) ↔
          (∀ r ∈ rules, Named r) ∧ rules.length ≤ maxNetworkRules) := by
  refine ⟨fun rule => (by rw [parse_render hT]; exact rule.back_eq_iff), ?_⟩
  intro rules stored hstored
  rw [issued_of_stored hT hstored]
  constructor
  · rintro ⟨issued, heq, hall⟩
    cases heq
    refine ⟨fun r hr => ?_, ?_⟩
    · obtain ⟨i, hi, rfl⟩ := List.mem_iff_getElem.mp hr
      obtain ⟨rule, hrule, -⟩ := hall.get hi (hall.length_eq ▸ hi)
      exact (named_iff T.toInetPton _).mpr ⟨rule, hrule⟩
    · rw [hall.length_eq, List.length_take]
      exact min_le_left _ _
  · rintro ⟨hnamed, hlength⟩
    have hall : List.Forall₂ (IssuedAs T.toInetPton) rules _ := forall₂_issued hnamed
    have hparsed : (rules.filterMap fun r => (parseRule T.toInetPton r).get).length ≤
        controllerMaxArraySize := by
      refine (List.length_filterMap_le _ _).trans (hlength.trans ?_)
      decide
    refine ⟨_, rfl, ?_⟩
    rw [List.take_of_length_le hparsed,
      List.take_of_length_le (by rw [← hall.length_eq]; exact hlength)]
    exact hall

/-- A subnet and a DROP come back. -/
theorem subnet_survives :
    parseRule dotted.toInetPton
        (renderRule dotted ⟨true, false, .entry (.ipv4Source 0x0a000000 8)⟩)
      = .rule ⟨true, false, .entry (.ipv4Source 0x0a000000 8)⟩ ∧
    ∃ issued, issuedRules dotted.toInetPton maxNetworkRules
        [renderRule dotted ⟨false, false, .action .drop⟩] = some issued ∧
      List.Forall₂ (IssuedAs dotted.toInetPton) [typed "ACTION_DROP"] issued := by
  have hstored : storedRules dotted controllerMaxArraySize [typed "ACTION_DROP"]
      = some [renderRule dotted ⟨false, false, .action .drop⟩] := by
    simp [storedRules, parseRule, parseBody, controllerMaxArraySize]
  refine ⟨((rules_survive_iff dotted_lawful).1 _).mpr (show (8 : UInt8) ≤ 32 by decide), ?_⟩
  refine ((rules_survive_iff dotted_lawful).2 _ _ hstored).mpr ⟨?_, by decide⟩
  intro r hr
  rw [List.mem_singleton.mp hr]
  refine ⟨rfl, ?_, ?_⟩ <;> simp [ruleNames]

/-- A range of 8 bits. -/
def rangeRule : Rule := ⟨false, false, .entry (.integerRange 1 2 0 7)⟩

/-- **The range is left out** of its group: what is posted as "drop what is in the range" is issued
as "drop everything". -/
theorem range_dropped :
    parseRule dotted.toInetPton (renderRule dotted rangeRule) = .no ∧
    ∃ stored, storedRules dotted controllerMaxArraySize
        [renderRule dotted rangeRule, typed "ACTION_DROP"] = some stored ∧
      issuedRules dotted.toInetPton maxNetworkRules stored
        = some [⟨false, false, .action .drop⟩] := by
  have hrange : parseRule dotted.toInetPton (renderRule dotted rangeRule) = .no :=
    parse_render dotted_lawful rangeRule
  refine ⟨hrange, [renderRule dotted ⟨false, false, .action .drop⟩], ?_, ?_⟩
  · rw [storedRules, hrange]
    simp [storedRules, parseRule, parseBody, controllerMaxArraySize]
  · have hdrop : parseRule dotted.toInetPton (renderRule dotted ⟨false, false, .action .drop⟩)
        = .rule ⟨false, false, .action .drop⟩ := parse_render dotted_lawful _
    simp [issuedRules, maxNetworkRules, hdrop]

end ZGalaxy
