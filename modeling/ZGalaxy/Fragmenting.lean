/-
ZGalaxy/Fragmenting.lean

The datagrams a packet leaves in, at any MTU.

A packet longer than the MTU is cut into a head of `mtu` bytes and fragments that hold `mtu` bytes
less their own header (`datagramAt`).  What the receiver can put together again is `Joins`: a whole
packet, or a head and its fragments, numbered from one, each of which names the packet and the
total.

Main results: `emit_datagrams`, the sender emits the datagrams in order; `joins_emit_iff`, they join
exactly when the head has room for the header of the packet and the receiver accepts their number;
`Joins.received`, what joins is what the receive queue decodes.
-/
import ZGalaxy.Switch

namespace ZGalaxy

open ByteList

/-! ### What the sender emits -/

/-- The bytes of a packet in each fragment. -/
def fragmentRoom (mtu : ℕ) : ℕ := mtu - protoMinFragmentLength

/-- How many datagrams `n` bytes take. -/
def datagramCount (mtu n : ℕ) : ℕ := (n - mtu + (fragmentRoom mtu - 1)) / fragmentRoom mtu + 1

/-- The fragment `no` of `total` of a packet. -/
def fragmentAt (mtu total : ℕ) (p : Bytes) (no : ℕ) : Bytes :=
  slice p idxIv 13 ++ [addressReservedPrefix,
    (UInt8.ofNat (total % 16) <<< 4) ||| UInt8.ofNat (no % 16), 0] ++
    slice p (mtu + (no - 1) * fragmentRoom mtu) (fragmentRoom mtu)

/-- The head and the fragments of a packet. -/
def datagramAt (mtu : ℕ) (p : Bytes) : ℕ → Bytes
  | 0 => p.take mtu
  | no + 1 => fragmentAt mtu (datagramCount mtu p.length) p (no + 1)

section Emit

variable {mtu : ℕ} {p : Bytes}

/-- The loop sends the fragments in order, while `n` of them cover what remains. -/
theorem sendFragments_at (total : ℕ) (hmtu : protoMinFragmentLength < mtu)
    (hmax : p.length ≤ protoMaxPacketLength) {n fno remaining : ℕ}
    (hlen : mtu + fno * fragmentRoom mtu + remaining = p.length)
    (hn : remaining ≤ n * fragmentRoom mtu)
    (hpos : (n - 1) * fragmentRoom mtu < remaining ∨ n = 0) :
    sendFragments p (fragmentRoom mtu) total n (fno + 1) (mtu + fno * fragmentRoom mtu) remaining
      = ((List.range' (fno + 1) n).map (fragmentAt mtu total p), none) := by
  induction n generalizing fno remaining with
  | zero => rfl
  | succ n ih =>
      have hhdr : protoMinFragmentLength = 16 := rfl
      have hsucc : (n + 1) * fragmentRoom mtu = n * fragmentRoom mtu + fragmentRoom mtu :=
        Nat.succ_mul _ _
      have hstart : mtu + fno * fragmentRoom mtu + fragmentRoom mtu
          = mtu + (fno + 1) * fragmentRoom mtu := by
        ring
      -- this fragment
      have hinit : Fragment.init p (mtu + fno * fragmentRoom mtu) (min remaining (fragmentRoom mtu))
          (fno + 1) total = .ok (fragmentAt mtu total p (fno + 1)) := by
        have hslice : slice p (mtu + fno * fragmentRoom mtu) (min remaining (fragmentRoom mtu))
            = slice p (mtu + fno * fragmentRoom mtu) (fragmentRoom mtu) := by
          have hrem : remaining = (p.drop (mtu + fno * fragmentRoom mtu)).length := by
            rw [List.length_drop]
            omega
          rw [slice, slice, hrem, Nat.min_comm, ← List.take_take, List.take_length]
        rw [Fragment.init, if_neg (by omega), if_neg (by omega), hslice, fragmentAt,
          Nat.add_sub_cancel]
      rw [sendFragments, hinit]
      rcases Nat.eq_zero_or_pos n with rfl | hn0
      · simp [sendFragments]
      · -- it is a full one, and the rest follow
        have hpred : n * fragmentRoom mtu = (n - 1) * fragmentRoom mtu + fragmentRoom mtu := by
          have := Nat.succ_mul (n - 1) (fragmentRoom mtu)
          rwa [Nat.succ_eq_add_one, Nat.sub_add_cancel hn0] at this
        have hfull : n * fragmentRoom mtu < remaining := by
          rcases hpos with h | h
          · exact h
          · omega
        have hmin : min remaining (fragmentRoom mtu) = fragmentRoom mtu := by omega
        have hrest := ih (show mtu + (fno + 1) * fragmentRoom mtu + (remaining - fragmentRoom mtu)
          = p.length by rw [← hstart]; omega) (by omega) (Or.inl (by omega))
        simp only [hmin, hstart, hrest, List.range'_succ, List.map_cons]

/-- A packet takes one datagram exactly when it fits in one. -/
theorem datagramCount_eq_one_iff (hmtu : protoMinFragmentLength < mtu) {n : ℕ} :
    datagramCount mtu n = 1 ↔ n ≤ mtu := by
  have hroom : 0 < fragmentRoom mtu := Nat.sub_pos_of_lt hmtu
  rw [datagramCount, Nat.add_eq_right, Nat.div_eq_zero_iff_lt hroom]
  omega

/-- **What the sender emits**: the datagrams of the packet, in order. -/
theorem emit_datagrams (hmtu : protoMinFragmentLength < mtu)
    (hmax : p.length ≤ protoMaxPacketLength) :
    emit mtu true p = ((List.range (datagramCount mtu p.length)).map (datagramAt mtu p), none) := by
  have hcap : protoMaxPacketLength = 10024 := rfl
  have hhdr : protoMinFragmentLength = 16 := rfl
  have hroom : fragmentRoom mtu = mtu - 16 := rfl
  by_cases hone : p.length ≤ mtu
  · -- a single datagram
    have hcount : datagramCount mtu p.length = 1 := (datagramCount_eq_one_iff hmtu).mpr hone
    have hmin : min p.length mtu = p.length := Nat.min_eq_left hone
    unfold emit
    rw [hmin, if_neg fun h => lt_irrefl _ h.2, hcount]
    simp [datagramAt, List.take_of_length_le hone]
  · have hmin : min p.length mtu = mtu := Nat.min_eq_right (by omega)
    have hlt : mtu < p.length := by omega
    have hword : ∀ k, 10024 < k → (mtu + k - 16) % k = mtu - 16 ∧
        ∀ x, x ≤ 10024 → x % k = x := by
      intro k hk
      refine ⟨?_, fun x hx => Nat.mod_eq_of_lt (by omega)⟩
      rw [show mtu + k - 16 = mtu - 16 + k by omega, Nat.add_mod_right]
      exact Nat.mod_eq_of_lt (by omega)
    have hwrap : (mtu + 2 ^ 32 - protoMinFragmentLength) % 2 ^ 32 = fragmentRoom mtu :=
      (hword (2 ^ 32) (by norm_num)).1
    unfold emit
    rw [hwrap]
    simp only [true_and]
    set r := p.length - mtu with hr
    set q := r / fragmentRoom mtu with hq
    have hqr : q * fragmentRoom mtu ≤ r := Nat.div_mul_le_self _ _
    have hdiv : fragmentRoom mtu * q + r % fragmentRoom mtu = r := Nat.div_add_mod r _
    have hmod : r % fragmentRoom mtu < fragmentRoom mtu := Nat.mod_lt _ (by omega)
    have hsmall : q * fragmentRoom mtu % 2 ^ 32 = q * fragmentRoom mtu := by
      apply (hword (2 ^ 32) (by norm_num)).2
      omega
    have hcomm : fragmentRoom mtu * q = q * fragmentRoom mtu := Nat.mul_comm _ _
    -- the number of fragments is the quotient rounded up
    have hceil : (r + (fragmentRoom mtu - 1)) / fragmentRoom mtu
        = if q * fragmentRoom mtu < r then q + 1 else q := by
      have hsucc : (q + 1) * fragmentRoom mtu = q * fragmentRoom mtu + fragmentRoom mtu :=
        Nat.succ_mul _ _
      have hsucc' :
          (q + 1 + 1) * fragmentRoom mtu = (q + 1) * fragmentRoom mtu + fragmentRoom mtu :=
        Nat.succ_mul _ _
      split_ifs with hpos
      · exact Nat.div_eq_of_lt_le (by omega) (by omega)
      · exact Nat.div_eq_of_lt_le (by omega) (by omega)
    have hcount : (if q * fragmentRoom mtu < r then q + 1 else q) + 1
        = datagramCount mtu p.length := by
      rw [datagramCount, ← hr, hceil]
    rw [hmin, if_pos hlt, hsmall, hcount]
    set n := if q * fragmentRoom mtu < r then q + 1 else q with hn
    have hloop := sendFragments_at (datagramCount mtu p.length) hmtu hmax (n := n)
      (show mtu + 0 * fragmentRoom mtu + r = p.length by rw [Nat.zero_mul]; omega)
      (by rw [hn]; split_ifs with hpos <;> [rw [Nat.succ_mul]; skip] <;> omega)
      (by
        rw [hn]
        split_ifs with hpos
        · exact Or.inl (by rwa [Nat.add_sub_cancel])
        · have := Nat.succ_mul (q - 1) (fragmentRoom mtu)
          rcases Nat.eq_zero_or_pos q with h0 | h0
          · exact Or.inr h0
          · rw [Nat.succ_eq_add_one, Nat.sub_add_cancel h0] at this
            exact Or.inl (by omega))
    simp only [Nat.zero_mul, Nat.add_zero, Nat.zero_add] at hloop
    have hrange : List.range (datagramCount mtu p.length) = 0 :: List.range' 1 n := by
      rw [← hcount, List.range_eq_range', List.range'_succ]
    have hmap : (List.range' 1 n).map (datagramAt mtu p)
        = (List.range' 1 n).map (fragmentAt mtu (datagramCount mtu p.length) p) := by
      apply List.map_congr_left
      intro no hno
      obtain ⟨k, rfl⟩ := Nat.exists_eq_add_of_le' (List.mem_range'_1.mp hno).1
      rfl
    rw [← hr, hloop, hrange, List.map_cons, hmap, datagramAt]

end Emit

/-! ### What the receiver joins -/

/-- The fragments of the packet `id` from number `no` on, when there are `total` parts. -/
inductive Continues (self : Address) (id : BitVec 64) (total : ℕ) : ℕ → List Bytes → Prop
  | last : Continues self id total total []
  | more {no : ℕ} {f : Bytes} {fs : List Bytes} :
      datagramKind self f = .fragment → Fragment.packetId f = id → Fragment.fragmentNumber f = no →
      Fragment.totalFragments f = total → Continues self id total (no + 1) fs →
      Continues self id total no (f :: fs)

/-- The datagrams that the node `self` joins to the packet `q`: the packet itself, or its head and
all its fragments. -/
inductive Joins (self : Address) : List Bytes → Bytes → Prop
  | whole {q : Bytes} : datagramKind self q = .whole → Joins self [q] q
  | parts {head f : Bytes} {fs : List Bytes} :
      datagramKind self head = .head →
      Continues self (Packet.packetId head) (fs.length + 2) 1 (f :: fs) →
      Joins self (head :: f :: fs) (head ++ (f :: fs).flatMap Fragment.payload)

/-- A finished packet on its way to a node over a path: of a legal size, from another node, whose
address is not a reserved one, and flagged as fragmented exactly when it is longer than the MTU. -/
structure TransitAt (mtu : ℕ) (node : Address) (p : Bytes) : Prop where
  min : protoMinPacketLength ≤ p.length
  max : p.length ≤ protoMaxPacketLength
  destination : Packet.destination p = node
  source : Packet.source p ≠ node
  unreserved : Address.isReserved (Packet.source p) = false
  fragmented : Packet.fragmented p = decide (mtu < p.length)

/-- A fragment that the receiver takes names a sane number and total. -/
theorem saneFragment_of_fragment {self : Address} {d : Bytes}
    (h : datagramKind self d = .fragment) : saneFragment d := by
  unfold datagramKind at h
  split_ifs at h with h₁ h₂ h₃ h₄ h₅ h₆ h₇ h₈ h₉ h₁₀
  exact h₅

/-- A head has room for the header of a packet. -/
theorem length_of_head {self : Address} {d : Bytes} (h : datagramKind self d = .head) :
    protoMinPacketLength ≤ d.length := by
  unfold datagramKind at h
  split_ifs at h with h₁ h₂ h₃ h₄ h₅ h₆ h₇ h₈ h₉ h₁₀
  exact h₆

/-! ### The fields of a fragment -/

/-- The number and the total of a fragment, back from the byte they share. -/
theorem fragmentNo_byte :
    ∀ total < 16, ∀ no < 16,
      ((UInt8.ofNat (total % 16) <<< (4 : UInt8)) ||| UInt8.ofNat (no % 16)).toNat / 16 = total ∧
      ((UInt8.ofNat (total % 16) <<< (4 : UInt8)) ||| UInt8.ofNat (no % 16)).toNat % 16 = no := by
  decide

theorem length_fragmentHeader {p : Bytes} (h : protoMinPacketLength ≤ p.length) :
    (slice p idxIv 13).length = 13 :=
  length_slice (by simp only [protoMinPacketLength, idxIv] at *; omega)

section Fields

variable {p : Bytes} (h : protoMinPacketLength ≤ p.length) (mtu total no : ℕ)
include h

/-- A fragment starts with the packet id and the destination. -/
theorem slice_fragmentAt {i n : ℕ} (hi : i + n ≤ 13) :
    slice (fragmentAt mtu total p no) i n = slice p i n := by
  have hlen := length_fragmentHeader h
  rw [fragmentAt, List.append_assoc, slice_append_left (by omega), slice_slice _ _ _ _ _ hi]
  congr 1
  exact Nat.zero_add i

/-- Then it has the byte that tells it from a head, and its number and total. -/
theorem byteAt_fragmentAt :
    byteAt (fragmentAt mtu total p no) idxFragmentIndicator = addressReservedPrefix ∧
      byteAt (fragmentAt mtu total p no) idxFragmentNo
        = (UInt8.ofNat (total % 16) <<< (4 : UInt8)) ||| UInt8.ofNat (no % 16) := by
  have hlen := length_fragmentHeader h
  have hget : ∀ (a b c : Bytes) (i : ℕ), a.length ≤ i → i < a.length + b.length →
      byteAt (a ++ b ++ c) i = byteAt b (i - a.length) := by
    intro a b c i h₁ h₂
    rw [byteAt, byteAt, List.getD_eq_getElem?_getD, List.getD_eq_getElem?_getD, List.append_assoc,
      List.getElem?_append_right h₁, List.getElem?_append_left (by omega)]
  refine ⟨?_, ?_⟩
  · rw [fragmentAt, hget _ _ _ _ (by rw [hlen]; decide)
      (by rw [hlen]; simp [idxFragmentIndicator]), hlen]
    rfl
  · rw [fragmentAt, hget _ _ _ _ (by rw [hlen]; decide)
      (by rw [hlen]; simp [idxFragmentNo]), hlen]
    rfl

/-- The rest is its payload. -/
theorem payload_fragmentAt :
    Fragment.payload (fragmentAt mtu total p no)
      = slice p (mtu + (no - 1) * fragmentRoom mtu) (fragmentRoom mtu) := by
  have hlen := length_fragmentHeader h
  rw [Fragment.payload, fragmentAt]
  refine List.drop_left' ?_
  rw [List.length_append, hlen]
  rfl

theorem length_fragmentAt :
    (fragmentAt mtu total p no).length
      = 16 + min (fragmentRoom mtu) (p.length - (mtu + (no - 1) * fragmentRoom mtu)) := by
  have hlen := length_fragmentHeader h
  rw [fragmentAt, List.length_append, List.length_append, hlen, slice, List.length_take,
    List.length_drop]
  rfl

end Fields

section Receive

variable {mtu : ℕ} {self : Address} {p : Bytes}

/-- A packet in transit does not look like a fragment. -/
theorem TransitAt.indicator_ne (h : TransitAt mtu self p) :
    byteAt p idxFragmentIndicator ≠ addressReservedPrefix := by
  intro hb
  have hmin : 28 ≤ p.length := h.min
  have hlen : (slice p idxSource addressLength).length = addressLength :=
    length_slice (by simp only [idxSource, addressLength]; omega)
  have hhead : byteAt (slice p idxSource addressLength) 0 = addressReservedPrefix := by
    rwa [byteAt_slice _ (by decide)]
  have hres := Address.isReserved_of_head hlen hhead
  have hnot := h.unreserved
  rw [Packet.source, hres] at hnot
  exact absurd hnot (by decide)

/-- The first bytes of a packet are its own. -/
theorem slice_take {n i k : ℕ} (h : i + k ≤ n) : slice (p.take n) i k = slice p i k := by
  rw [slice, slice, List.drop_take, List.take_take, Nat.min_eq_left (by omega)]

theorem byteAt_take {n i : ℕ} (h : i < n) : byteAt (p.take n) i = byteAt p i := by
  rw [byteAt, byteAt, List.getD_eq_getElem?_getD, List.getD_eq_getElem?_getD,
    List.getElem?_take_of_lt h]

/-- A head that has no room for the header of a packet is ignored. -/
theorem datagramKind_short (h : TransitAt mtu self p) {n : ℕ} (hn : n < protoMinPacketLength) :
    datagramKind self (p.take n) = .ignored := by
  have hshort : n < 28 := hn
  have hlen : (p.take n).length ≤ n := List.length_take_le _ _
  unfold datagramKind
  by_cases hfrag : protoMinFragmentLength < (p.take n).length
  · have hsixteen : 16 < (p.take n).length := hfrag
    have hind : byteAt (p.take n) idxFragmentIndicator ≠ addressReservedPrefix := by
      rw [byteAt_take (by simp only [idxFragmentIndicator]; omega)]
      exact h.indicator_ne
    rw [if_pos hfrag, if_neg hind, if_neg (by simp only [protoMinPacketLength]; omega)]
  · rw [if_neg hfrag]

/-- The head of a packet in parts is a head; a packet in one part is whole. -/
theorem datagramKind_head (h : TransitAt mtu self p) (hmtu : protoMinPacketLength ≤ mtu) :
    datagramKind self (p.take mtu) = if p.length ≤ mtu then .whole else .head := by
  have hmin : 28 ≤ p.length := h.min
  have hmax : p.length ≤ 10024 := h.max
  have hlong : 28 ≤ mtu := hmtu
  have hlen : (p.take mtu).length = min mtu p.length := List.length_take
  have hind : byteAt (p.take mtu) idxFragmentIndicator ≠ addressReservedPrefix := by
    rw [byteAt_take (by simp only [idxFragmentIndicator]; omega)]
    exact h.indicator_ne
  have hsrc : Packet.source (p.take mtu) = Packet.source p := by
    rw [Packet.source, slice_take (by simp only [idxSource, addressLength]; omega), Packet.source]
  have hdst : Packet.destination (p.take mtu) = Packet.destination p := by
    rw [Packet.destination, slice_take (by simp only [idxDest, addressLength]; omega),
      Packet.destination]
  have hflag : Packet.fragmented (p.take mtu) = Packet.fragmented p := by
    rw [Packet.fragmented, Packet.flags, byteAt_take (by simp only [idxFlags]; omega),
      Packet.fragmented, Packet.flags]
  unfold datagramKind
  rw [if_pos (by rw [hlen, protoMinFragmentLength]; omega), if_neg hind,
    if_pos (by rw [hlen, protoMinPacketLength]; omega), hsrc, if_neg h.source, hdst,
    if_neg (not_not.mpr h.destination), hflag, h.fragmented]
  by_cases hone : p.length ≤ mtu
  · have hfits : (p.take mtu).length ≤ 10024 := by omega
    rw [if_pos hone, decide_eq_false (by omega), if_neg (by decide)]
    exact if_neg (not_lt.mpr hfits)
  · rw [if_neg hone, decide_eq_true (by omega)]
    rfl

/-- The fragments of a packet cover what is after the head. -/
theorem datagramCount_covers (hmtu : protoMinFragmentLength < mtu) (n : ℕ) :
    n ≤ mtu + (datagramCount mtu n - 1) * fragmentRoom mtu := by
  have hroom : 0 < fragmentRoom mtu := Nat.sub_pos_of_lt hmtu
  have hmod := Nat.mod_lt (n - mtu + (fragmentRoom mtu - 1)) hroom
  have hdiv := Nat.div_add_mod (n - mtu + (fragmentRoom mtu - 1)) (fragmentRoom mtu)
  rw [datagramCount, Nat.add_sub_cancel, Nat.mul_comm]
  omega

/-- Every fragment of a packet has a payload. -/
theorem datagramCount_needed {n no : ℕ} (hpos : 1 ≤ no) (hno : no < datagramCount mtu n) :
    mtu + (no - 1) * fragmentRoom mtu < n := by
  have hle : no ≤ (n - mtu + (fragmentRoom mtu - 1)) / fragmentRoom mtu := by
    rw [datagramCount] at hno
    omega
  have hroom : 0 < fragmentRoom mtu := by
    rcases Nat.eq_zero_or_pos (fragmentRoom mtu) with h0 | h0
    · rw [h0, Nat.div_zero] at hle
      omega
    · exact h0
  have hmul := (Nat.le_div_iff_mul_le hroom).mp hle
  have hsucc : no * fragmentRoom mtu = (no - 1) * fragmentRoom mtu + fragmentRoom mtu := by
    have := Nat.succ_mul (no - 1) (fragmentRoom mtu)
    rwa [Nat.succ_eq_add_one, Nat.sub_add_cancel hpos] at this
  omega

/-- **Joining the datagrams gives the packet back.** -/
theorem flatMap_payload_datagramAt (hmtu : protoMinFragmentLength < mtu)
    (hmin : protoMinPacketLength ≤ p.length) :
    datagramAt mtu p 0 ++ (List.range' 1 (datagramCount mtu p.length - 1)).flatMap
      (fun no => Fragment.payload (datagramAt mtu p no)) = p := by
  have hparts : (List.range' 1 (datagramCount mtu p.length - 1)).flatMap
      (fun no => Fragment.payload (datagramAt mtu p no))
      = (List.range (datagramCount mtu p.length - 1)).flatMap
        fun k => slice p (mtu + k * fragmentRoom mtu) (fragmentRoom mtu) := by
    rw [List.range'_eq_map_range, List.flatMap_map]
    congr 1
    funext k
    rw [Nat.add_comm 1 k, datagramAt, payload_fragmentAt hmin, Nat.add_sub_cancel]
  rw [hparts, flatMap_slice_chunks _ _ _ _ (datagramCount_covers hmtu p.length), datagramAt,
    List.take_append_drop]

/-- Every datagram carries the packet's id. -/
theorem packetId_datagramAt (hmin : protoMinPacketLength ≤ p.length)
    (hmtu : protoMinPacketLength ≤ mtu) (no : ℕ) :
    Packet.packetId (datagramAt mtu p no) = Packet.packetId p := by
  have hroom : 28 ≤ mtu := hmtu
  rcases no with - | no
  · rw [Packet.packetId, datagramAt, slice_take (by simp only [idxIv]; omega), Packet.packetId]
  · rw [Packet.packetId, datagramAt, slice_fragmentAt hmin _ _ _ (by decide), Packet.packetId]

/-- What a fragment of the packet is to the receiver. -/
theorem fragmentAt_spec (h : TransitAt mtu self p) (hmtu : protoMinFragmentLength < mtu) {no : ℕ}
    (hpos : 1 ≤ no) (hno : no < datagramCount mtu p.length)
    (hfew : datagramCount mtu p.length < 16) :
    Fragment.packetId (datagramAt mtu p no) = Packet.packetId p ∧
      Fragment.fragmentNumber (datagramAt mtu p no) = no ∧
      Fragment.totalFragments (datagramAt mtu p no) = datagramCount mtu p.length ∧
      datagramKind self (datagramAt mtu p no)
        = if datagramCount mtu p.length ≤ maxPacketFragments then .fragment else .ignored := by
  obtain ⟨k, rfl⟩ := Nat.exists_eq_add_of_le' hpos
  have hmax : p.length ≤ 10024 := h.max
  have hsixteen : 16 < mtu := hmtu
  have hind := byteAt_fragmentAt h.min mtu (datagramCount mtu p.length) (k + 1)
  have hneeded := datagramCount_needed hpos hno
  have hroom : 0 < fragmentRoom mtu := Nat.sub_pos_of_lt hmtu
  obtain ⟨htotal, hnumber⟩ := fragmentNo_byte _ hfew (k + 1) (by omega)
  have hn : Fragment.fragmentNumber (datagramAt mtu p (k + 1)) = k + 1 := by
    rw [Fragment.fragmentNumber, datagramAt, hind.2, hnumber]
  have ht : Fragment.totalFragments (datagramAt mtu p (k + 1)) = datagramCount mtu p.length := by
    rw [Fragment.totalFragments, datagramAt, hind.2, htotal]
  have hid : Fragment.packetId (datagramAt mtu p (k + 1)) = Packet.packetId p := by
    rw [Fragment.packetId, datagramAt, slice_fragmentAt h.min _ _ _ (by decide), Packet.packetId,
      idxIv]
  have hdst : Fragment.destination (datagramAt mtu p (k + 1)) = self := by
    rw [Fragment.destination, datagramAt, slice_fragmentAt h.min _ _ _ (by decide)]
    exact h.destination
  have hsane : saneFragment (datagramAt mtu p (k + 1))
      ↔ datagramCount mtu p.length ≤ maxPacketFragments := by
    rw [saneFragment, ht, hn]
    constructor
    · exact fun hs => hs.1
    · exact fun hs => ⟨hs, by omega, by omega, by omega⟩
  have hlen := length_fragmentAt h.min mtu (datagramCount mtu p.length) (k + 1)
  have hfirst : byteAt (datagramAt mtu p (k + 1)) idxFragmentIndicator = addressReservedPrefix :=
    hind.1
  rw [← datagramAt] at hlen
  refine ⟨hid, hn, ht, ?_⟩
  unfold datagramKind
  rw [if_pos (by rw [hlen, protoMinFragmentLength]; omega), if_pos hfirst,
    if_neg (by rw [hlen, protoMaxPacketLength, maxPacketFragments, defaultPhysMtu]; omega),
    if_neg (not_not.mpr hdst)]
  by_cases hc : datagramCount mtu p.length ≤ maxPacketFragments
  · rw [if_pos (hsane.mpr hc), if_pos hc]
  · rw [if_neg (mt hsane.mp hc), if_neg hc]

/-- The fragments from any one on continue the packet. -/
theorem continues_datagrams (h : TransitAt mtu self p) (hmtu : protoMinFragmentLength < mtu)
    (hfew : datagramCount mtu p.length ≤ maxPacketFragments) (no n : ℕ) (hpos : 1 ≤ no)
    (hn : no + n = datagramCount mtu p.length) :
    Continues self (Packet.packetId p) (datagramCount mtu p.length) no
      ((List.range' no n).map (datagramAt mtu p)) := by
  have hseven : maxPacketFragments = 7 := rfl
  induction n generalizing no with
  | zero =>
      obtain rfl : no = datagramCount mtu p.length := hn
      exact .last
  | succ n ih =>
      obtain ⟨hid, hnumber, htotal, hkind⟩ :=
        fragmentAt_spec h hmtu hpos (by omega) (by omega)
      rw [if_pos hfew] at hkind
      rw [List.range'_succ, List.map_cons]
      exact .more hkind hid hnumber htotal (ih (no + 1) (by omega) (by omega))

/-- The packet fits in one datagram, or the head has room for its header and there are no more
datagrams than the receiver accepts. -/
def FitsMtu (mtu n : ℕ) : Prop :=
  n ≤ mtu ∨ protoMinPacketLength ≤ mtu ∧ datagramCount mtu n ≤ maxPacketFragments

/-- The first datagram is the head, whatever becomes of the rest. -/
theorem emit_head (mtu : ℕ) (sent : Bool) (p : Bytes) :
    ∃ frags, (emit mtu sent p).1 = p.take (min p.length mtu) :: frags := by
  unfold emit
  generalize (mtu + 2 ^ 32 - protoMinFragmentLength) % 2 ^ 32 = room
  extract_lets chunkSize head fragSize remaining n m
  by_cases h : sent = true ∧ chunkSize < p.length
  · rw [if_pos h]
    -- the fragments are not looked at
    generalize sendFragments p fragSize (m + 1) m 1 chunkSize remaining = r
    obtain ⟨frags, err⟩ := r
    exact ⟨frags, rfl⟩
  · rw [if_neg h]
    exact ⟨[], rfl⟩

theorem Joins.head_kind {ds : List Bytes} {d q : Bytes} (h : Joins self (d :: ds) q) :
    datagramKind self d = .whole ∨ datagramKind self d = .head := by
  cases h with
  | whole hk => exact .inl hk
  | parts hk _ => exact .inr hk

/-- **Exactly when the datagrams join**, and to what: to the packet, if it fits. -/
theorem joins_emit_iff (h : TransitAt mtu self p) {q : Bytes} :
    Joins self (emit mtu true p).1 q ↔ q = p ∧ FitsMtu mtu p.length := by
  have hmin : 28 ≤ p.length := h.min
  have hseven : maxPacketFragments = 7 := rfl
  by_cases hone : p.length ≤ mtu
  · -- the packet is whole
    have hsixteen : protoMinFragmentLength < mtu := lt_of_lt_of_le (by decide) (hmin.trans hone)
    have hkind : datagramKind self p = .whole := by
      have hhead := datagramKind_head h (le_trans hmin hone)
      rwa [if_pos hone, List.take_of_length_le hone] at hhead
    have hone' : (emit mtu true p).1 = [p] := by
      rw [emit_datagrams hsixteen h.max, (datagramCount_eq_one_iff hsixteen).mpr hone]
      simp [datagramAt, List.take_of_length_le hone]
    rw [hone']
    constructor
    · rintro (hw | -)
      exact ⟨rfl, .inl hone⟩
    · rintro ⟨rfl, -⟩
      exact .whole hkind
  by_cases hroom : protoMinPacketLength ≤ mtu
  · have hsixteen : protoMinFragmentLength < mtu := lt_of_lt_of_le (by decide) hroom
    have hmany : datagramCount mtu p.length ≠ 1 := mt (datagramCount_eq_one_iff hsixteen).mp hone
    obtain ⟨n, hn⟩ : ∃ n, datagramCount mtu p.length = n + 2 := by
      have hpos : 1 ≤ datagramCount mtu p.length := Nat.le_add_left _ _
      exact ⟨datagramCount mtu p.length - 2, by omega⟩
    -- a head and at least one fragment
    have hds : (emit mtu true p).1 = datagramAt mtu p 0 :: datagramAt mtu p 1 ::
        (List.range' 2 n).map (datagramAt mtu p) := by
      rw [emit_datagrams hsixteen h.max, hn, List.range_eq_range', List.range'_succ,
        List.range'_succ, List.map_cons, List.map_cons]
    have hhead : datagramKind self (datagramAt mtu p 0) = .head := by
      rw [datagramAt, datagramKind_head h hroom, if_neg hone]
    have hid := packetId_datagramAt h.min hroom 0
    -- what they carry is the packet, in any number of fragments
    have hjoined : datagramAt mtu p 0 ++ (datagramAt mtu p 1 ::
        (List.range' 2 n).map (datagramAt mtu p)).flatMap Fragment.payload = p := by
      have hall := flatMap_payload_datagramAt hsixteen h.min
      rw [hn, show n + 2 - 1 = n + 1 from rfl, List.range'_succ] at hall
      rwa [← List.map_cons (f := datagramAt mtu p) (a := 1), List.flatMap_map]
    rw [hds]
    constructor
    · intro hj
      cases hj with
      | parts hk hc =>
          refine ⟨hjoined, .inr ⟨hroom, ?_⟩⟩
          -- the receiver asks for a number that it accepts
          cases hc with
          | more hkind _ _ htotal _ =>
              have hsane := saneFragment_of_fragment hkind
              rw [saneFragment, htotal, List.length_map, List.length_range'] at hsane
              rw [hn]
              exact hsane.1
    · rintro ⟨rfl, hfits⟩
      obtain hle | ⟨-, hfew⟩ := hfits
      · exact absurd hle hone
      have hc := continues_datagrams h hsixteen hfew 1 (n + 1) le_rfl (by omega)
      rw [List.range'_succ, List.map_cons, hn, ← hid] at hc
      have hc' : Continues self (Packet.packetId (datagramAt mtu q 0))
          (((List.range' 2 n).map (datagramAt mtu q)).length + 2) 1
          (datagramAt mtu q 1 :: (List.range' 2 n).map (datagramAt mtu q)) := by
        rwa [List.length_map, List.length_range']
      have hj := Joins.parts hhead hc'
      rwa [hjoined] at hj
  · -- the head is cut in its header
    obtain ⟨frags, hfrags⟩ := emit_head mtu true p
    have hcut : min p.length mtu = mtu := Nat.min_eq_right (le_of_not_ge hone)
    have hignored := datagramKind_short h (not_le.mp hroom)
    rw [hfrags, hcut]
    constructor
    · intro hj
      rcases hj.head_kind with hk | hk <;> rw [hignored] at hk <;> cases hk
    · rintro ⟨-, hle | ⟨hle, -⟩⟩
      · exact absurd hle hone
      · exact absurd hle hroom

/-- A packet that fits is sent without an exception. -/
theorem emit_of_fits {sent : Bool} (hmin : protoMinPacketLength ≤ p.length)
    (hmax : p.length ≤ protoMaxPacketLength) (h : sent = true → FitsMtu mtu p.length) :
    (emit mtu sent p).2 = none := by
  have hlong : 28 ≤ p.length := hmin
  cases sent with
  | false =>
      unfold emit
      rw [if_neg fun hs => Bool.false_ne_true hs.1]
  | true =>
      have hsixteen : protoMinFragmentLength < mtu := by
        obtain hle | ⟨hroom, -⟩ := h rfl
        · exact lt_of_lt_of_le (by decide) (hlong.trans hle)
        · exact lt_of_lt_of_le (by decide) hroom
      rw [emit_datagrams hsixteen hmax]

end Receive

/-! ### The receive queue joins them -/

/-- The data that an effect hands to `tryDecode`, for the two branches of a datagram
just received. -/
def decodedData {Path Peer : Type*} : Effect Path Peer → Option Bytes
  | .decodeWhole packet => some packet.data
  | .decodeAssembled packet => some packet.data
  | _ => none

section Received

variable {Path Peer : Type*} {self : Address} {id : BitVec 64} {head : Bytes} {done : List Bytes}
  {total : ℕ}

/-- The entry of a packet of which the head and the first fragments came. -/
structure Gathered (id : BitVec 64) (head : Bytes) (done : List Bytes) (rq : RXQueueEntry Path) :
    Prop where
  packetId : rq.packetId = id
  inUse : rq.timestamp ≠ 0
  bits : ∀ f, rq.haveFragments.getLsbD f = decide (f ≤ done.length)
  head : rq.frag0.data = head
  frags : ∀ j (hj : j < done.length), rq.frags j = done[j]

/-- The next fragment is added to the entry. -/
theorem Gathered.addFragment {rq : RXQueueEntry Path} (h : Gathered id head done rq)
    {a : Arrival Path Peer} (hno : Fragment.fragmentNumber a.data = done.length + 1)
    (hroom : done.length + 1 < 32) : Gathered id head (done ++ [a.data]) (rq.addFragment a) := by
  refine ⟨h.packetId, h.inUse, fun f => ?_, h.head, fun j hj => ?_⟩
  · rw [List.length_append, List.length_singleton]
    show (rq.haveFragments ||| RXQueueEntry.bit (Fragment.fragmentNumber a.data)).getLsbD f = _
    rw [hno]
    by_cases hf : f < 32
    · rw [RXQueueEntry.getLsbD_or_bit _ _ hf, h.bits, ← Bool.decide_or, decide_eq_decide]
      omega
    · rw [BitVec.getLsbD_of_ge _ _ (by omega), decide_eq_false (by omega)]
  · rw [List.length_append, List.length_singleton] at hj
    show Function.update rq.frags (Fragment.fragmentNumber a.data - 1) a.data j = _
    rw [hno, Nat.add_sub_cancel]
    by_cases hlast : j = done.length
    · subst hlast
      simp
    · rw [Function.update_of_ne hlast, h.frags j (by omega), List.getElem_append_left]

/-- When the last fragment came, the head and the payloads are joined. -/
theorem Gathered.assemble {rq : RXQueueEntry Path} (h : Gathered id head done rq)
    (hfits : (head ++ done.flatMap Fragment.payload).length ≤ protoMaxPacketLength)
    (tryDecode : IncomingPacket Path → Bool × IncomingPacket Path) :
    ∃ packet : IncomingPacket Path, (rq.assemble (done.length + 1) tryDecode).2 = some packet ∧
      packet.data = head ++ done.flatMap Fragment.payload := by
  have hjoined : (List.range' 1 (done.length + 1 - 1)).flatMap
      (fun f => Fragment.payload (rq.frags (f - 1))) = done.flatMap Fragment.payload := by
    rw [Nat.add_sub_cancel, List.range'_eq_map_range, List.flatMap_map, List.flatMap_def,
      List.flatMap_def]
    congr 1
    apply List.ext_getElem
    · simp
    · intro j h₁ h₂
      have hj : j < done.length := by simpa using h₂
      simp only [List.getElem_map, List.getElem_range, Nat.add_sub_cancel_left]
      rw [h.frags j hj]
  have hok := RXQueueEntry.appendPayloads_ok rq.frags (List.range' 1 (done.length + 1 - 1))
    rq.frag0.data (by rw [hjoined, h.head]; exact hfits)
  rw [hjoined, h.head] at hok
  unfold RXQueueEntry.assemble
  rw [h.head, hok]
  dsimp only
  split_ifs
  · exact ⟨_, rfl, rfl⟩
  · exact ⟨_, rfl, rfl⟩

/-- What the next fragment makes of the entry. -/
theorem Gathered.receiveFragment {rq : RXQueueEntry Path} (h : Gathered id head done rq)
    {a : Arrival Path Peer} (hid : Fragment.packetId a.data = id)
    (hno : Fragment.fragmentNumber a.data = done.length + 1)
    (htotal : Fragment.totalFragments a.data = total) (hsane : total ≤ maxPacketFragments)
    (hlt : done.length + 1 < total) :
    rq.receiveFragment a =
      if done.length + 2 = total then (rq.addFragment a).assemble total a.tryDecode
      else (rq.addFragment a, none) := by
  have hseven : maxPacketFragments = 7 := rfl
  have hadded := h.addFragment hno (by omega)
  have hcount : countBits (rq.addFragment a).haveFragments = BitVec.ofNat 32 total
      ↔ done.length + 2 = total := by
    rw [RXQueueEntry.countBits_eq_iff hsane fun f hf => by
      rw [hadded.bits, List.length_append, List.length_singleton, decide_eq_false (by omega)]]
    constructor
    · intro hall
      have hlast := hall (total - 1) (by omega)
      rw [hadded.bits, List.length_append, List.length_singleton, decide_eq_true_eq] at hlast
      omega
    · intro heq f hf
      rw [hadded.bits, List.length_append, List.length_singleton, decide_eq_true_eq]
      omega
  have hnew : rq.haveFragments.getLsbD (Fragment.fragmentNumber a.data) = false := by
    rw [hno, h.bits, decide_eq_false (by omega)]
  have hsame : ¬ rq.packetId ≠ Packet.packetId a.data := not_not.mpr (h.packetId.trans hid.symm)
  rw [RXQueueEntry.receiveFragment_eq rq a (by omega), if_neg hsame, if_pos hnew, htotal]
  exact if_congr hcount rfl rfl

theorem Continues.length {no : ℕ} {fs : List Bytes} (h : Continues self id total no fs) :
    no + fs.length = total := by
  induction h with
  | last => rfl
  | @more no f fs _ _ _ _ _ ih =>
      rw [List.length_cons]
      omega

/-- **The fragments of a packet**, one after the other, make the receive queue join it. -/
theorem gathered_run (done : List Bytes) {fs : List Bytes}
    (h : Continues self id total (done.length + 1) fs)
    (hne : fs ≠ []) (hfits : (head ++ (done ++ fs).flatMap Fragment.payload).length
      ≤ protoMaxPacketLength) {s : Switch Path} {i : Fin rxQueueSize} (hlive : s.Live id i)
    (hunique : ∀ j, s.Live id j → j = i) (hheld : Gathered id head done (s.rxQueue i))
    {as : List (Arrival Path Peer)} (hdata : as.map Arrival.data = fs) :
    ((switchMachine Path Peer self).runOutputs s (as.map .remotePacket)).filterMap decodedData
      = [head ++ (done ++ fs).flatMap Fragment.payload] := by
  -- on the fragments still to come: the entry holds the head and those before
  induction fs generalizing done s as with
  | nil => exact absurd rfl hne
  | cons f fs ih =>
      obtain ⟨a, as, rfl, ha, has⟩ := List.map_eq_cons_iff.mp hdata
      have hlength := h.length
      rw [List.length_cons] at hlength
      cases h with
      | more hkind hid hno htotal hrest =>
          rw [← ha] at hkind hid hno htotal
          have hsane : total ≤ maxPacketFragments := htotal ▸ (saneFragment_of_fragment hkind).1
          have hfragment := hheld.receiveFragment hid hno htotal hsane (by omega)
          have hadded := hheld.addFragment hno (by
            have hseven : maxPacketFragments = 7 := rfl
            omega)
          -- the entry in use for the packet is the one that is found
          have hstep : s.onRemotePacket a self
              = (s.setEntry i ((s.rxQueue i).receiveFragment a).1,
                (((s.rxQueue i).receiveFragment a).2.map .decodeAssembled).toList) := by
            have hpacket : Packet.packetId a.data = id := hid
            rw [Switch.onRemotePacket_eq, hkind, hpacket]
            simp only [Switch.updateRXQueueEntry, s.findRXQueueEntry_of_unique hlive hunique]
          have hjoined : done ++ f :: fs = (done ++ [a.data]) ++ fs := by
            rw [List.append_assoc, List.singleton_append, ha]
          rw [List.map_cons, Machine.runOutputs_cons, List.filterMap_append]
          show (s.onRemotePacket a self).2.filterMap decodedData
            ++ ((switchMachine Path Peer self).runOutputs (s.onRemotePacket a self).1 _).filterMap
              decodedData = _
          rw [hstep, hfragment]
          rw [hjoined] at hfits ⊢
          by_cases hlast : fs = []
          · -- the last one
            subst hlast
            obtain rfl : as = [] := List.map_eq_nil_iff.mp has
            have htot : done.length + 2 = total := hlength
            obtain ⟨packet, hpacket, hdone⟩ := hadded.assemble
              (by simpa using hfits) a.tryDecode
            rw [List.length_append, List.length_singleton] at hpacket
            rw [if_pos htot, ← htot, hpacket]
            show [packet.data] ++ [] = _
            rw [hdone, List.append_nil, List.append_nil]
          · -- more are to come
            have hpos : 0 < fs.length := List.length_pos_iff.mpr hlast
            rw [if_neg (by omega)]
            show [] ++ _ = _
            rw [List.nil_append]
            apply ih (done ++ [a.data]) (s := s.setEntry i ((s.rxQueue i).addFragment a))
            · rwa [List.length_append, List.length_singleton]
            · exact hlast
            · exact hfits
            · show ((s.setEntry i _).rxQueue i).packetId = id ∧
                ((s.setEntry i _).rxQueue i).timestamp ≠ 0
              rw [s.setEntry_same]
              exact ⟨hadded.packetId, hadded.inUse⟩
            · intro j hj
              by_contra hji
              rw [Switch.Live, s.setEntry_ne hji] at hj
              exact hji (hunique j hj)
            · rw [s.setEntry_same]
              exact hadded
            · exact has

/-- **What joins is joined**: at a receiver without an entry in use for it, if the next slot does
not carry its id, the datagrams of a packet are decoded once, as the packet they join to. -/
theorem Joins.received {ds : List Bytes} {q : Bytes} (h : Joins self ds q)
    (hfits : q.length ≤ protoMaxPacketLength) {s : Switch Path}
    (hnone : ∀ i, ¬ s.Live (Packet.packetId q) i)
    (hslot : (s.rxQueue (slot s.rxQueuePtr)).packetId ≠ Packet.packetId q)
    {as : List (Arrival Path Peer)} (hdata : as.map Arrival.data = ds)
    (hnow : ∀ a ∈ as, a.now ≠ 0) :
    ((switchMachine Path Peer self).runOutputs s (as.map .remotePacket)).filterMap decodedData
      = [q] := by
  cases h with
  | whole hkind =>
      obtain ⟨a, as, rfl, rfl, has⟩ := List.map_eq_cons_iff.mp hdata
      obtain rfl : as = [] := List.map_eq_nil_iff.mp has
      rw [List.map_cons, Machine.runOutputs_cons, List.filterMap_append]
      show (s.onRemotePacket a self).2.filterMap decodedData ++ [] = _
      rw [Switch.onRemotePacket_eq, hkind, List.append_nil]
      show (s.receiveWhole a).2.filterMap decodedData = _
      unfold Switch.receiveWhole
      rw [if_neg (not_lt.mpr hfits)]
      dsimp only
      split_ifs <;> rfl
  | @parts head f fs hkind hrest =>
      obtain ⟨a, as, rfl, ha, has⟩ := List.map_eq_cons_iff.mp hdata
      have hlong : 28 ≤ head.length := length_of_head hkind
      have hid :
          Packet.packetId (head ++ (f :: fs).flatMap Fragment.payload) = Packet.packetId head := by
        rw [Packet.packetId, slice_append_left (by simp only [idxIv]; omega), Packet.packetId]
      rw [hid] at hnone hslot
      have hheadfits : a.data.length ≤ protoMaxPacketLength := by
        rw [List.length_append] at hfits
        rw [ha]
        exact (Nat.le_add_right _ _).trans hfits
      set i := slot s.rxQueuePtr with hi
      set t : Switch Path := { s with rxQueuePtr := s.rxQueuePtr + 1 } with ht
      -- the head takes the next slot, and nothing is decoded
      have hstep : s.onRemotePacket a self = (t.setEntry i ((s.rxQueue i).startHead a), []) := by
        have hreceive : (s.rxQueue i).receiveHead a = ((s.rxQueue i).startHead a, none) := by
          rw [RXQueueEntry.receiveHead_eq _ hheadfits, ha, if_pos hslot]
        rw [Switch.onRemotePacket_eq, ha, hkind]
        simp only [Switch.updateRXQueueEntry, s.findRXQueueEntry_of_none hnone, ← hi, hreceive,
          Option.map_none, Option.toList_none]
        rfl
      rw [List.map_cons, Machine.runOutputs_cons, List.filterMap_append]
      show (s.onRemotePacket a self).2.filterMap decodedData
        ++ ((switchMachine Path Peer self).runOutputs (s.onRemotePacket a self).1 _).filterMap
          decodedData = _
      rw [hstep]
      show [] ++ _ = _
      rw [List.nil_append]
      have hbits : ∀ k, ((s.rxQueue i).startHead a).haveFragments.getLsbD k = decide (k ≤ 0) := by
        intro k
        show (RXQueueEntry.bit 0).getLsbD k = _
        by_cases hk : k < 32
        · rw [RXQueueEntry.getLsbD_bit 0 hk, decide_eq_decide]
          omega
        · rw [BitVec.getLsbD_of_ge _ _ (by omega), decide_eq_false (by omega)]
      -- the entry starts with the head alone
      have hstart : Gathered (Packet.packetId head) head [] ((s.rxQueue i).startHead a) :=
        ⟨congrArg Packet.packetId ha, hnow a List.mem_cons_self, hbits, ha,
          fun j hj => absurd hj (Nat.not_lt_zero j)⟩
      apply gathered_run [] (s := t.setEntry i ((s.rxQueue i).startHead a)) (i := i) hrest
        (List.cons_ne_nil _ _) hfits
      · show ((t.setEntry i _).rxQueue i).packetId = _ ∧ ((t.setEntry i _).rxQueue i).timestamp ≠ 0
        rw [t.setEntry_same]
        exact ⟨hstart.packetId, hstart.inUse⟩
      · intro j hj
        by_contra hji
        rw [Switch.Live, t.setEntry_ne hji] at hj
        exact hnone j hj
      · rw [t.setEntry_same]
        exact hstart
      · exact has

end Received

end ZGalaxy
