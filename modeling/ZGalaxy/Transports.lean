/-
ZGalaxy/Transports.lean

Transport matches over IPv4 and over IPv6.

The same payload can be carried in an IPv4 packet, behind a header of any length (`Carried4`), or
in an IPv6 packet, behind any chain of extension headers (`Carried6`).  The walk over the extension
headers finds it (`Headers.walk`), and then an entry about the protocol makes of it the
same over both.

An entry about a port does not when the port is 0, which counts as no port over IPv6 only, and one
about TCP flags does not when the payload ends with the flags or before them, which is checked over
IPv6 only.

Main result: `transports_agree_iff`.
-/
import ZGalaxy.Filter

namespace ZGalaxy

open ByteList

namespace Frame

variable (f : Frame)

/-- The extension headers that `_ipv6GetPayload` knows. -/
def IsExtension (proto : ℕ) : Prop := proto = 0 ∨ proto = 43 ∨ proto = 60 ∨ proto = 135

instance (proto : ℕ) : Decidable (IsExtension proto) :=
  inferInstanceAs (Decidable (proto = 0 ∨ proto = 43 ∨ proto = 60 ∨ proto = 135))

/-- Extension headers from a position on, the first of the type `proto`, up to something at `stop`
of protocol `p` that is none. -/
inductive Headers (stop p : ℕ) : ℕ → ℕ → Prop
  | done : ¬ IsExtension p → Headers stop p stop p
  | header {pos proto : ℕ} : IsExtension proto →
      Headers stop p (pos + (f.byte (pos + 1) * 8 + 8)) (f.byte pos) → Headers stop p pos proto

variable {f}

theorem Headers.le {stop p pos proto : ℕ} (h : f.Headers stop p pos proto) : pos ≤ stop := by
  induction h with
  | done _ => exact Nat.le_refl stop
  | header _ _ ih => omega

/-- The walk goes over all extension headers. -/
theorem Headers.walk {stop p pos proto : ℕ} (h : f.Headers stop p pos proto)
    (hstop : stop ≤ f.frameLen) : f.ipv6Walk pos proto = some (stop, p) := by
  induction h with
  | done hp =>
      rw [ipv6Walk, if_pos hstop]
      exact if_neg hp
  | header hproto hnext ih =>
      have hle := hnext.le
      rw [ipv6Walk, if_pos (by omega)]
      refine (if_pos hproto).trans ?_
      rw [if_neg (by omega)]
      exact ih

/-- A frame that carries a payload over IPv4. -/
structure Carried4 (f : Frame) (p : UInt8) (payload : Bytes) : Prop where
  etherType : f.etherType = etherTypeIPv4
  ihl : 5 ≤ f.byte 0 &&& 0xf
  protocol : f.frameData 9 = p
  frameLen : f.frameLen = f.headerLen + payload.length
  data : ∀ i < payload.length, f.frameData (f.headerLen + i) = payload.getD i 0

/-- A frame that carries a payload over IPv6, at `stop`. -/
structure Carried6 (f : Frame) (p : UInt8) (payload : Bytes) (stop : ℕ) : Prop where
  etherType : f.etherType = etherTypeIPv6
  headers : f.Headers stop p.toNat 40 (f.byte 6)
  frameLen : f.frameLen = stop + payload.length
  data : ∀ i < payload.length, f.frameData (stop + i) = payload.getD i 0

section Carried

variable {f g : Frame} {p : UInt8} {payload : Bytes} {stop : ℕ}

theorem Carried4.isIPv4 (h : Carried4 f p payload) : f.isIPv4 = true := by
  have hihl := h.ihl
  have hlen := h.frameLen
  unfold headerLen at hlen
  unfold Frame.isIPv4
  rw [h.etherType]
  simp only [beq_self_eq_true, Bool.true_and, decide_eq_true_eq]
  omega

theorem Carried6.not_isIPv4 (h : Carried6 g p payload stop) : g.isIPv4 = false := by
  unfold Frame.isIPv4
  rw [h.etherType]
  rfl

theorem Carried6.etherType_beq (h : Carried6 g p payload stop) :
    (g.etherType == etherTypeIPv6) = true := by
  rw [h.etherType]
  rfl

/-- **The walk finds the payload.** -/
theorem Carried6.getPayload (h : Carried6 g p payload stop) :
    g.ipv6GetPayload = some (stop, p.toNat) := by
  have hle := h.headers.le
  have hlen := h.frameLen
  unfold ipv6GetPayload
  rw [if_neg (by omega)]
  exact h.headers.walk (by omega)

/-- The port that is `offset` bytes into a payload. -/
def portAt (payload : Bytes) (offset : ℕ) : ℕ :=
  beNat ((List.range 2).map fun k => payload.getD (offset + k) 0)

theorem beAt_eq_portAt {pos offset : ℕ} (hlen : offset + 2 ≤ payload.length)
    (hdata : ∀ i < payload.length, f.frameData (pos + i) = payload.getD i 0) :
    f.beAt 2 (pos + offset) = portAt payload offset := by
  unfold beAt portAt
  apply congrArg beNat
  apply List.map_congr_left
  intro k hk
  have hk2 := List.mem_range.mp hk
  rw [Nat.add_assoc, hdata (offset + k) (by omega)]

end Carried

end Frame

namespace FilterContext

open ZGalaxy.Frame

/-- What an entry contributes to its set. -/
def contribution (c : FilterContext) (superAccept : Bool) (ztDest : Address) (rn : ℕ) (neg : Bool)
    (m : Match) : Bool :=
  (c.evaluate superAccept ztDest rn neg m).thisRuleMatches ^^ neg

/-- The bits of MATCH_CHARACTERISTICS that stand for TCP flags. -/
def tcpBits : BitVec 64 := 0xfff

/-- The entries about protocols, ports and TCP flags. -/
def IsTransport : Match → Prop
  | .ipProtocol _ => True
  | .ipSourcePortRange _ _ => True
  | .ipDestPortRange _ _ => True
  | .characteristics flags => flags &&& tcpBits = flags
  | _ => False

/-- A port that is 0, and a range that begins with it. -/
def ZeroPort (p : UInt8) (payload : Bytes) (offset : ℕ) (port₀ : UInt16) : Prop :=
  hasPorts p.toNat = true ∧ 4 < payload.length ∧ portAt payload offset = 0 ∧ port₀ = 0

/-- Where the two families differ. -/
def Differs (c : FilterContext) (p : UInt8) (payload : Bytes) : Match → Prop
  | .ipSourcePortRange port₀ _ => ZeroPort p payload 0 port₀
  | .ipDestPortRange port₀ _ => ZeroPort p payload 2 port₀
  | .characteristics flags =>
      p = 6 ∧ payload.length ≤ 14 ∧ c.tcpFlagsAt c.frame.headerLen &&& flags ≠ 0
  | _ => False

variable {c c' : FilterContext} {p : UInt8} {payload : Bytes} {stop : ℕ}

theorem matchIpProtocol_agree (h4 : Carried4 c.frame p payload)
    (h6 : Carried6 c'.frame p payload stop) (hardNo : Bool) (ipProtocol : UInt8) :
    c.matchIpProtocol hardNo ipProtocol = c'.matchIpProtocol hardNo ipProtocol := by
  unfold matchIpProtocol
  simp only [h4.isIPv4, h6.not_isIPv4, h6.etherType_beq, h6.getPayload, if_true, if_false,
    Bool.false_eq_true, h4.protocol, UInt8.ofNat_toNat]

theorem matchPortRange4 (h4 : Carried4 c.frame p payload) {offset : ℕ} (hoffset : offset ≤ 2)
    (hardNo : Bool) (port₀ port₁ : UInt16) :
    c.matchPortRange hardNo port₀ port₁ offset
      = if hasPorts p.toNat = true ∧ 4 < payload.length then
          decide (port₀.toNat ≤ portAt payload offset) && decide
            (portAt payload offset ≤ port₁.toNat)
        else false := by
  have hlen := h4.frameLen
  have hbyte : c.frame.byte 9 = p.toNat := congrArg UInt8.toNat h4.protocol
  have hiff : (hasPorts p.toNat = true ∧ c.frame.headerLen + 4 < c.frame.frameLen) ↔
      hasPorts p.toNat = true ∧ 4 < payload.length := and_congr_right fun _ => by omega
  unfold matchPortRange
  simp only [h4.isIPv4, if_true, hbyte]
  by_cases h : hasPorts p.toNat = true ∧ 4 < payload.length
  · rw [if_pos (hiff.mpr h), if_pos h, beAt_eq_portAt (by omega) h4.data]
  · rw [if_neg (fun h' => h (hiff.mp h')), if_neg h]

theorem matchPortRange6 (h6 : Carried6 c'.frame p payload stop) {offset : ℕ} (hoffset : offset ≤ 2)
    (hardNo : Bool) (port₀ port₁ : UInt16) :
    c'.matchPortRange hardNo port₀ port₁ offset
      = if hasPorts p.toNat = true ∧ 4 < payload.length then
          decide (0 < portAt payload offset) &&
            (decide (port₀.toNat ≤ portAt payload offset)
              && decide (portAt payload offset ≤ port₁.toNat))
        else false := by
  have hlen := h6.frameLen
  have hiff : (hasPorts p.toNat = true ∧ stop + 4 < c'.frame.frameLen) ↔
      hasPorts p.toNat = true ∧ 4 < payload.length := and_congr_right fun _ => by omega
  unfold matchPortRange
  simp only [h6.not_isIPv4, h6.etherType_beq, h6.getPayload, if_true, if_false, Bool.false_eq_true]
  by_cases h : hasPorts p.toNat = true ∧ 4 < payload.length
  · rw [if_pos (hiff.mpr h), if_pos h, beAt_eq_portAt (by omega) h6.data]
  · rw [if_neg (fun h' => h (hiff.mp h')), if_neg h]

/-- **Ports** are taken alike unless they are 0. -/
theorem matchPortRange_agree_iff (h4 : Carried4 c.frame p payload)
    (h6 : Carried6 c'.frame p payload stop) {offset : ℕ} (hoffset : offset ≤ 2) (hardNo : Bool)
    (port₀ port₁ : UInt16) :
    c.matchPortRange hardNo port₀ port₁ offset = c'.matchPortRange hardNo port₀ port₁ offset ↔
      ¬ ZeroPort p payload offset port₀ := by
  rw [matchPortRange4 h4 hoffset, matchPortRange6 h6 hoffset]
  unfold ZeroPort
  by_cases h : hasPorts p.toNat = true ∧ 4 < payload.length
  · rw [if_pos h, if_pos h]
    by_cases hzero : portAt payload offset = 0
    · by_cases hport : port₀ = 0
      · refine iff_of_false ?_ fun hno => hno ⟨h.1, h.2, hzero, hport⟩
        simp [hzero, hport]
      · have hpos : ¬ port₀.toNat ≤ 0 := fun hle =>
          hport (UInt16.toNat_inj.mp (Nat.le_zero.mp hle))
        refine iff_of_true ?_ fun hz => hport hz.2.2.2
        simp only [hzero, hpos, decide_false, Bool.false_and, Bool.and_false]
    · refine iff_of_true ?_ fun hz => hzero hz.2.2.1
      rw [decide_eq_true (Nat.pos_of_ne_zero hzero), Bool.true_and]
  · rw [if_neg h, if_neg h]
    exact iff_of_true rfl fun hz => h ⟨hz.1, hz.2.1⟩

/-! ### TCP flags -/

theorem tcpFlags4 (h4 : Carried4 c.frame p payload) :
    c.tcpFlags = if p = 6 then c.tcpFlagsAt c.frame.headerLen else 0 := by
  have hne : (c.frame.etherType == etherTypeIPv6) = false := by
    rw [h4.etherType]
    rfl
  unfold tcpFlags
  simp only [h4.isIPv4, h4.protocol, Bool.true_and, beq_iff_eq, hne, Bool.false_eq_true, if_false]

theorem tcpFlagsAt_eq {pos pos' : ℕ} (hlen : 14 < payload.length)
    (h : ∀ i < payload.length, c.frame.frameData (pos + i) = payload.getD i 0)
    (h' : ∀ i < payload.length, c'.frame.frameData (pos' + i) = payload.getD i 0) :
    c.tcpFlagsAt pos = c'.tcpFlagsAt pos' := by
  unfold tcpFlagsAt Frame.byte
  rw [h 13 (by omega), h 12 (by omega), h' 13 (by omega), h' 12 (by omega)]

theorem tcpFlags6 (h6 : Carried6 c'.frame p payload stop) :
    c'.tcpFlags = if p = 6 ∧ 14 < payload.length then c'.tcpFlagsAt stop else 0 := by
  have hlen := h6.frameLen
  have hiff : (p.toNat = 6 ∧ stop + 14 < c'.frame.frameLen) ↔ p = 6 ∧ 14 < payload.length := by
    refine and_congr ?_ (by omega)
    exact ⟨fun h => UInt8.toNat_inj.mp h, fun h => congrArg UInt8.toNat h⟩
  unfold tcpFlags
  simp only [h6.not_isIPv4, h6.etherType_beq, h6.getPayload, if_true, Bool.false_and,
    Bool.false_eq_true, if_false]
  exact if_congr hiff rfl rfl

/-- The other characteristics have other bits. -/
theorem characteristics_and {flags : BitVec 64} (h : flags &&& tcpBits = flags) :
    c.characteristics &&& flags = c.tcpFlags &&& flags := by
  have hother : ∀ (flag : BitVec 64) (b : Bool), flag &&& tcpBits = 0 →
      characteristic flag b &&& flags = 0 := by
    intro flag b hflag
    unfold characteristic
    split_ifs
    · rw [← h, BitVec.and_comm flags, ← BitVec.and_assoc, hflag]
      exact BitVec.zero_and
    · exact BitVec.zero_and
  unfold characteristics ownershipVerificationMask
  rw [BitVec.and_or_distrib_right, BitVec.and_or_distrib_right, BitVec.and_or_distrib_right,
    BitVec.and_or_distrib_right, BitVec.and_or_distrib_right, hother _ _ rfl, hother _ _ rfl,
    hother _ _ rfl, hother senderIpAuthenticated _ rfl, hother _ _ rfl]
  simp

/-- **TCP flags** are taken alike where the payload has them and something behind them. -/
theorem characteristics_agree_iff (h4 : Carried4 c.frame p payload)
    (h6 : Carried6 c'.frame p payload stop) {flags : BitVec 64} (h : flags &&& tcpBits = flags) :
    ((c.characteristics &&& flags != 0) = (c'.characteristics &&& flags != 0)) ↔
      ¬ Differs c p payload (.characteristics flags) := by
  rw [characteristics_and h, characteristics_and h, tcpFlags4 h4, tcpFlags6 h6]
  have hzero : (0 : BitVec 64) &&& flags = 0 := BitVec.zero_and
  by_cases htcp : p = 6
  · by_cases hlen : 14 < payload.length
    · rw [if_pos htcp, if_pos ⟨htcp, hlen⟩, tcpFlagsAt_eq hlen h4.data h6.data]
      exact iff_of_true rfl fun hd => absurd hd.2.1 (Nat.not_le.mpr hlen)
    · rw [if_pos htcp, if_neg fun h' => hlen h'.2, hzero]
      by_cases hflags : c.tcpFlagsAt c.frame.headerLen &&& flags = 0
      · rw [hflags]
        exact iff_of_true rfl fun hd => hd.2.2 hflags
      · refine iff_of_false ?_ fun hno => hno ⟨htcp, Nat.not_lt.mp hlen, hflags⟩
        rw [bne_iff_ne.mpr hflags]
        exact fun heq => absurd heq (by decide)
  · rw [if_neg htcp, if_neg fun h' => htcp h'.1]
    exact iff_of_true rfl fun hd => htcp hd.1

/-! ### Both families -/

/-- **IPv4 and IPv6 agree** about an entry on the transport, but for port 0 and for TCP flags at the
end of the payload or behind it. -/
theorem transports_agree_iff (h4 : Carried4 c.frame p payload)
    (h6 : Carried6 c'.frame p payload stop) {m : Match} (hm : IsTransport m)
    (superAccept superAccept' : Bool) (ztDest ztDest' : Address) (rn rn' : ℕ) (neg : Bool) :
    c.contribution superAccept ztDest rn neg m = c'.contribution superAccept' ztDest' rn' neg m ↔
      ¬ Differs c p payload m := by
  have hxor : ∀ b b' : Bool, (b ^^ neg) = (b' ^^ neg) ↔ b = b' := fun b b' => Bool.xor_left_inj
  unfold contribution
  rw [hxor]
  cases m with
  | ipProtocol p' =>
      refine iff_of_true ?_ id
      exact matchIpProtocol_agree h4 h6 neg p'
  | ipSourcePortRange port₀ port₁ =>
      exact matchPortRange_agree_iff h4 h6 (Nat.zero_le 2) neg port₀ port₁
  | ipDestPortRange port₀ port₁ =>
      exact matchPortRange_agree_iff h4 h6 (Nat.le_refl 2) neg port₀ port₁
  | characteristics flags => exact characteristics_agree_iff h4 h6 hm
  | _ => exact absurd hm id

/-! ### A port that is 0 -/

/-- A UDP header with source port 0 and destination port 53. -/
def udpHeader : Bytes := [0, 0, 0, 53, 0, 8, 0, 0]

/-- It in an IPv4 packet. -/
def udp4 : Frame where
  macSource := 0
  macDest := 0
  frameData i := if i = 0 then 0x45 else if i = 9 then 0x11 else udpHeader.getD (i - 20) 0
  frameLen := 28
  etherType := etherTypeIPv4
  vlanId := 0

/-- It in an IPv6 packet. -/
def udp6 : Frame where
  macSource := 0
  macDest := 0
  frameData i := if i = 6 then 0x11 else udpHeader.getD (i - 40) 0
  frameLen := 48
  etherType := etherTypeIPv6
  vlanId := 0

theorem carried_udp4 : Carried4 udp4 0x11 udpHeader where
  etherType := rfl
  ihl := by decide
  protocol := rfl
  frameLen := rfl
  data := by decide

theorem carried_udp6 : Carried6 udp6 0x11 udpHeader 40 where
  etherType := rfl
  headers := .done (by decide)
  frameLen := rfl
  data := by decide

/-- A node that receives a frame and knows nothing. -/
def receiving (frame : Frame) : FilterContext where
  ownAddress := 4
  nconf := NetworkConfig.none
  membership := none
  inbound := true
  ztSource := 5
  frame := frame
  prng := fun _ => 0

/-- The destination port is taken alike. -/
theorem destPort_agrees :
    (receiving udp4).contribution false 4 0 false (.ipDestPortRange 53 53)
      = (receiving udp6).contribution false 4 0 false (.ipDestPortRange 53 53) := by
  have h4 : Carried4 (receiving udp4).frame 0x11 udpHeader := carried_udp4
  have h6 : Carried6 (receiving udp6).frame 0x11 udpHeader 40 := carried_udp6
  have hm : IsTransport (.ipDestPortRange 53 53) := trivial
  apply (transports_agree_iff h4 h6 hm false false 4 4 0 0 false).mpr
  exact fun hd => absurd hd.2.2.2 (by decide)

/-- **The source port is not**: 0 is in the range of 0 to 1023 over IPv4 only. -/
theorem sourcePort_differs :
    Carried4 udp4 0x11 udpHeader ∧ Carried6 udp6 0x11 udpHeader 40 ∧
      (receiving udp4).contribution false 4 0 false (.ipSourcePortRange 0 1023) = true ∧
      (receiving udp6).contribution false 4 0 false (.ipSourcePortRange 0 1023) = false :=
  ⟨carried_udp4, carried_udp6, by decide +kernel, by decide +kernel⟩

end FilterContext

end ZGalaxy
