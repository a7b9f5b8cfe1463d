/-
ZGalaxy/Prefixes.lean

Prefixes of addresses.

Two addresses are in one network of `n` bits when their first `n` bits agree (`SamePrefix`).
`matchingPrefixBits` counts how many agree, bit by bit for IPv4 and byte by byte for IPv6, and
`containsAddress` asks for the netmask of a network.

Main result: `containsAddress_iff`, that `containsAddress` says for IPv4 whether the prefixes agree,
and for IPv6 too unless they do and the network has bits set behind its netmask (`HasHostBits6`):
such a network contains nothing.
-/
import ZGalaxy.PhysicalPaths

namespace ZGalaxy

/-! ### Prefixes of words -/

variable {w : ℕ}

/-- The first `n` bits agree. -/
def SamePrefix (n : ℕ) (x y : BitVec w) : Prop :=
  ∀ i, i < n → x.getMsbD i = y.getMsbD i

/-- Shifting the rest out leaves the prefix. -/
theorem ushiftRight_eq_iff {n : ℕ} (hn : n ≤ w) (x y : BitVec w) :
    x >>> (w - n) = y >>> (w - n) ↔ SamePrefix n x y := by
  constructor
  · intro h i hi
    have hbit := congrArg (fun z => z.getMsbD (w - n + i)) h
    simp only [BitVec.getMsbD_ushiftRight] at hbit
    rw [Nat.add_sub_cancel_left] at hbit
    simpa [show w - n + i < w by omega] using hbit
  · intro h
    apply BitVec.eq_of_getMsbD_eq
    intro i hi
    rw [BitVec.getMsbD_ushiftRight, BitVec.getMsbD_ushiftRight]
    by_cases hin : i < w - n
    · simp only [hin, decide_true, Bool.not_true, Bool.false_and, Bool.and_false]
    · rw [h (i - (w - n)) (by omega)]

/-- A mask of `n` bits leaves of a word the prefix, and zeros. -/
theorem and_mask_eq_iff {n : ℕ} {m : BitVec w}
    (hm : ∀ i, i < w → m.getMsbD i = decide (i < n)) (x y : BitVec w) :
    x &&& m = y ↔ SamePrefix n x y ∧ ∀ i, n ≤ i → y.getMsbD i = false := by
  have hmask : ∀ i, (x &&& m).getMsbD i = (x.getMsbD i && decide (i < n)) := by
    intro i
    rw [BitVec.getMsbD_and]
    by_cases hi : i < w
    · rw [hm i hi]
    · rw [BitVec.getMsbD_of_ge x i (by omega), Bool.false_and, Bool.false_and]
  constructor
  · rintro rfl
    constructor
    · intro i hi
      rw [hmask, decide_eq_true hi, Bool.and_true]
    · intro i hi
      rw [hmask, decide_eq_false (by omega), Bool.and_false]
  · rintro ⟨hsame, hzero⟩
    apply BitVec.eq_of_getMsbD_eq
    intro i hi
    rw [hmask]
    by_cases hin : i < n
    · rw [decide_eq_true hin, Bool.and_true, hsame i hin]
    · rw [decide_eq_false hin, Bool.and_false, hzero i (by omega)]

namespace InetAddress

/-! ### Bytes of an IPv6 address -/

/-- Byte `i` of an IPv6 address. -/
def byte6 (ip : BitVec 128) (i : ℕ) : BitVec 8 := ip.extractLsb' (120 - 8 * i) 8

theorem getMsbD_byte6 (ip : BitVec 128) {i j : ℕ} (hi : i < 16) (hj : j < 8) :
    (byte6 ip i).getMsbD j = ip.getMsbD (8 * i + j) := by
  unfold byte6
  rw [BitVec.getMsbD_extractLsb', decide_eq_true hj, decide_eq_true (by omega), Bool.true_and,
    Bool.true_and]
  congr 1
  omega

theorem byte6_eq_iff (x y : BitVec 128) {i : ℕ} (hi : i < 16) :
    byte6 x i = byte6 y i ↔ ∀ j, j < 8 → x.getMsbD (8 * i + j) = y.getMsbD (8 * i + j) := by
  constructor
  · intro h j hj
    rw [← getMsbD_byte6 x hi hj, h, getMsbD_byte6 y hi hj]
  · intro h
    apply BitVec.eq_of_getMsbD_eq
    intro j hj
    rw [getMsbD_byte6 x hi hj, getMsbD_byte6 y hi hj, h j hj]

/-! ### How many bits agree -/

/-- The loop of `matchingPrefixBits` for IPv4, over at most `n` bits. -/
def matching4 : ℕ → BitVec 32 → BitVec 32 → ℕ
  | 0, _, _ => 0
  | n + 1, ip0, ip1 =>
      if ip0 >>> 31 = ip1 >>> 31 then matching4 n (ip0 <<< 1) (ip1 <<< 1) + 1 else 0

/-- The inner loop for IPv6: the bits of a byte, from `bit` on. -/
def matchingBits (ip0b ip1b : BitVec 8) : ℕ → BitVec 8 → ℕ
  | 0, _ => 0
  | n + 1, bit =>
      if ip0b &&& bit ≠ ip1b &&& bit then 0 else matchingBits ip0b ip1b n (bit >>> 1) + 1

/-- The loop for IPv6, over `n` bytes from byte `i` on. -/
def matching6 (ip0 ip1 : BitVec 128) : ℕ → ℕ → ℕ
  | 0, _ => 0
  | n + 1, i =>
      if byte6 ip0 i = byte6 ip1 i then matching6 ip0 ip1 n (i + 1) + 8
      else matchingBits (byte6 ip0 i) (byte6 ip1 i) 8 0x80

/-- `InetAddress::matchingPrefixBits`. -/
def matchingPrefixBits : InetAddress → InetAddress → ℕ
  | v4 ip0 _, v4 ip1 _ => matching4 32 ip0 ip1
  | v6 ip0 _, v6 ip1 _ => matching6 ip0 ip1 16 0
  | _, _ => 0

theorem le_matching4_iff {k n : ℕ} (hk : k ≤ n) (x y : BitVec 32) :
    k ≤ matching4 n x y ↔ SamePrefix k x y := by
  -- on the bits still to be compared: the first one is shifted out of both
  induction n generalizing k x y with
  | zero =>
      obtain rfl := Nat.le_zero.mp hk
      exact iff_of_true le_rfl fun i hi => absurd hi (Nat.not_lt_zero i)
  | succ n ih =>
      cases k with
      | zero => exact iff_of_true (Nat.zero_le _) fun i hi => absurd hi (Nat.not_lt_zero i)
      | succ k =>
          unfold matching4
          have first := ushiftRight_eq_iff (show 1 ≤ 32 by omega) x y
          have rest := ih (Nat.le_of_succ_le_succ hk) (x <<< 1) (y <<< 1)
          by_cases h : x >>> 31 = y >>> 31
          · rw [if_pos h, Nat.succ_le_succ_iff, rest]
            constructor
            · intro hr i hi
              cases i with
              | zero => exact first.mp h 0 Nat.one_pos
              | succ i =>
                  have := hr i (by omega)
                  rwa [BitVec.getMsbD_shiftLeft, BitVec.getMsbD_shiftLeft] at this
            · intro hs i hi
              rw [BitVec.getMsbD_shiftLeft, BitVec.getMsbD_shiftLeft]
              exact hs (i + 1) (by omega)
          · rw [if_neg h]
            refine iff_of_false (Nat.not_succ_le_zero k) fun hs => h (first.mpr ?_)
            intro i hi
            exact hs i (by omega)

/-- One bit of a byte, compared in place. -/
theorem and_bit_eq_iff (x y : BitVec 8) {j : ℕ} (hj : j < 8) :
    x &&& ((0x80 : BitVec 8) >>> j) = y &&& ((0x80 : BitVec 8) >>> j) ↔
      x.getMsbD j = y.getMsbD j := by
  have hbit : ∀ i, i < 8 → ((0x80 : BitVec 8) >>> j).getMsbD i = decide (i = j) := by
    revert j
    decide
  constructor
  · intro h
    have := congrArg (fun z => z.getMsbD j) h
    simpa only [BitVec.getMsbD_and, hbit j hj, decide_true, Bool.and_true] using this
  · intro h
    apply BitVec.eq_of_getMsbD_eq
    intro i hi
    rw [BitVec.getMsbD_and, BitVec.getMsbD_and, hbit i hi]
    by_cases hij : i = j
    · rw [hij, h]
    · rw [decide_eq_false hij, Bool.and_false, Bool.and_false]

theorem matchingBits_le (x y : BitVec 8) (n : ℕ) (bit : BitVec 8) : matchingBits x y n bit ≤ n := by
  induction n generalizing bit with
  | zero => exact le_rfl
  | succ n ih =>
      unfold matchingBits
      split_ifs
      · exact Nat.zero_le _
      · exact Nat.succ_le_succ (ih _)

theorem le_matchingBits_iff (x y : BitVec 8) {k n : ℕ} (hk : k ≤ n) (hn : n ≤ 8) :
    k ≤ matchingBits x y n ((0x80 : BitVec 8) >>> (8 - n)) ↔
      ∀ i, i < k → x.getMsbD (8 - n + i) = y.getMsbD (8 - n + i) := by
  -- on the bits still to be compared in the byte
  induction n generalizing k with
  | zero =>
      obtain rfl := Nat.le_zero.mp hk
      exact iff_of_true le_rfl fun i hi => absurd hi (Nat.not_lt_zero i)
  | succ n ih =>
      cases k with
      | zero => exact iff_of_true (Nat.zero_le _) fun i hi => absurd hi (Nat.not_lt_zero i)
      | succ k =>
          unfold matchingBits
          have bit := and_bit_eq_iff x y (show 8 - (n + 1) < 8 by omega)
          rw [← BitVec.shiftRight_add, show 8 - (n + 1) + 1 = 8 - n by omega]
          by_cases h : x.getMsbD (8 - (n + 1)) = y.getMsbD (8 - (n + 1))
          · rw [if_neg (not_not.mpr (bit.mpr h)), Nat.succ_le_succ_iff,
              ih (Nat.le_of_succ_le_succ hk) (by omega)]
            constructor
            · intro hr i hi
              cases i with
              | zero => exact h
              | succ i =>
                  have := hr i (by omega)
                  rwa [show 8 - n + i = 8 - (n + 1) + (i + 1) by omega] at this
            · intro hs i hi
              rw [show 8 - n + i = 8 - (n + 1) + (i + 1) by omega]
              exact hs (i + 1) (by omega)
          · rw [if_pos (mt bit.mp h)]
            exact iff_of_false (Nat.not_succ_le_zero k) fun hs => h (hs 0 (Nat.succ_pos k))

theorem le_matching6_iff (x y : BitVec 128) {k n i : ℕ} (hk : k ≤ 8 * n) (hn : i + n = 16) :
    k ≤ matching6 x y n i ↔
      ∀ j, j < k → x.getMsbD (8 * i + j) = y.getMsbD (8 * i + j) := by
  induction n generalizing k i with
  | zero =>
      obtain rfl := Nat.le_zero.mp hk
      exact iff_of_true le_rfl fun j hj => absurd hj (Nat.not_lt_zero j)
  | succ n ih =>
      unfold matching6
      by_cases hb : byte6 x i = byte6 y i
      · rw [if_pos hb]
        rw [byte6_eq_iff _ _ (by omega)] at hb
        have rest := ih (k := k - 8) (i := i + 1) (by omega) (by omega)
        rw [show k ≤ matching6 x y n (i + 1) + 8 ↔ k - 8 ≤ matching6 x y n (i + 1) by omega, rest]
        constructor
        · intro hr j hj
          by_cases hj8 : j < 8
          · exact hb j hj8
          · have := hr (j - 8) (by omega)
            rwa [show 8 * (i + 1) + (j - 8) = 8 * i + j by omega] at this
        · intro hs j hj
          rw [show 8 * (i + 1) + j = 8 * i + (j + 8) by omega]
          exact hs (j + 8) (by omega)
      · -- the bytes differ, so the count ends in this one
        rw [if_neg hb]
        have hle := matchingBits_le (byte6 x i) (byte6 y i) 8 0x80
        by_cases hk8 : k ≤ 8
        · refine (le_matchingBits_iff _ _ hk8 le_rfl).trans ?_
          refine forall_congr' fun j => imp_congr_right fun hj => ?_
          rw [Nat.sub_self, Nat.zero_add, getMsbD_byte6 x (by omega) (by omega),
            getMsbD_byte6 y (by omega) (by omega)]
        · refine iff_of_false (by omega) fun hs => hb ?_
          rw [byte6_eq_iff _ _ (by omega)]
          exact fun j hj => hs j (by omega)

/-! ### containsAddress -/

/-- `InetAddress::netmaskBits`. -/
def netmaskBits : InetAddress → ℕ
  | v4 _ bits => bits.toNat
  | v6 _ bits => bits.toNat
  | nil => 0

/-- Two IPv4 addresses, or two IPv6 addresses. -/
def SameFamily : InetAddress → InetAddress → Prop
  | v4 _ _, v4 _ _ => True
  | v6 _ _, v6 _ _ => True
  | _, _ => False

/-- The first bits agree, as many as the first address has in its netmask. -/
def SameNetwork : InetAddress → InetAddress → Prop
  | v4 ip bits, v4 ip' _ => SamePrefix bits.toNat ip ip'
  | v6 ip bits, v6 ip' _ => SamePrefix bits.toNat ip ip'
  | _, _ => False

/-- An IPv6 network written with bits behind its netmask. -/
def HasHostBits6 : InetAddress → Prop
  | v6 ip bits => ∃ i, bits.toNat ≤ i ∧ ip.getMsbD i = true
  | _ => False

/-- The mask made of two words is one of 128 bits. -/
theorem getMsbD_netmask6 {bits : ℕ} (hbits : bits ≤ 128) {i : ℕ} (hi : i < 128) :
    (netmask6 bits).getMsbD i = decide (i < bits) := by
  have hones : ∀ k j, ((BitVec.allOnes 64) <<< k).getMsbD j = decide (j + k < 64) := by
    intro k j
    rw [BitVec.getMsbD_shiftLeft, BitVec.getMsbD_allOnes]
  unfold netmask6
  extract_lets ones
  by_cases h0 : bits = 0
  · rw [if_pos h0, BitVec.ofNat_eq_ofNat, BitVec.getMsbD_zero, h0,
      decide_eq_false (Nat.not_lt_zero i)]
  rw [if_neg h0, BitVec.getMsbD_append]
  -- a bit is in the first word or in the second
  split_ifs with hi64 h64 h64
  · rw [BitVec.ofNat_eq_ofNat, BitVec.getMsbD_zero, decide_eq_false (by omega)]
  · rw [hones]
    exact decide_eq_decide.mpr (by omega)
  · rw [BitVec.getMsbD_allOnes]
    exact decide_eq_decide.mpr (by omega)
  · rw [hones]
    exact decide_eq_decide.mpr (by omega)

/-- Prefixes agree exactly if as many bits match. -/
theorem sameNetwork_iff {a b : InetAddress} (family : SameFamily a b) (mask : a.HasNetmask) :
    SameNetwork a b ↔ a.netmaskBits ≤ matchingPrefixBits a b := by
  cases a with
  | nil => exact family.elim
  | v4 ip bits =>
      cases b with
      | v4 ip' port => exact (le_matching4_iff mask ip ip').symm
      | nil => exact family.elim
      | v6 ip' port => exact family.elim
  | v6 ip bits =>
      cases b with
      | v6 ip' port =>
          refine Iff.trans ?_ (le_matching6_iff ip ip' (k := bits.toNat) mask rfl).symm
          refine forall_congr' fun i => imp_congr_right fun _ => ?_
          rw [Nat.mul_zero, Nat.zero_add]
      | nil => exact family.elim
      | v4 ip' port => exact family.elim

/-- For IPv4 the relation is that of the prefixes. -/
theorem containsAddress_v4 {net : BitVec 32} {bits : UInt16} (hbits : bits ≤ 32) (addr : BitVec 32)
    (port : UInt16) :
    containsAddress (v4 net bits) (v4 addr port) = true ↔ SamePrefix bits.toNat net addr := by
  have hbits' : bits.toNat ≤ 32 := hbits
  unfold containsAddress
  rw [Bool.or_eq_true, beq_iff_eq, beq_iff_eq, ushiftRight_eq_iff hbits']
  constructor
  · rintro (h0 | h) i hi
    · omega
    · exact (h i hi).symm
  · intro h
    exact Or.inr fun i hi => (h i hi).symm

/-- For IPv6 the network must have no bits behind its netmask in addition. -/
theorem containsAddress_v6 {net : BitVec 128} {bits : UInt16} (hbits : bits ≤ 128)
    (addr : BitVec 128) (port : UInt16) :
    containsAddress (v6 net bits) (v6 addr port) = true ↔
      SamePrefix bits.toNat net addr ∧ ¬HasHostBits6 (v6 net bits) := by
  have hbits' : bits.toNat ≤ 128 := hbits
  unfold containsAddress
  rw [beq_iff_eq, and_mask_eq_iff fun i hi => getMsbD_netmask6 hbits' hi]
  refine and_congr ⟨fun h i hi => (h i hi).symm, fun h i hi => (h i hi).symm⟩ ?_
  show _ ↔ ¬∃ i, _
  push Not
  simp only [ne_eq, Bool.not_eq_true]

/-- **Containment**: for two addresses of one family, `containsAddress` says whether the prefixes
agree, which is whether enough bits match, exactly unless the network is an IPv6 one with bits
behind its netmask and the prefixes do agree. -/
theorem containsAddress_iff {a b : InetAddress} (family : SameFamily a b) (mask : a.HasNetmask) :
    ((a.containsAddress b = true ↔ SameNetwork a b) ∧
        (a.containsAddress b = true ↔ a.netmaskBits ≤ matchingPrefixBits a b)) ↔
      ¬(a.HasHostBits6 ∧ SameNetwork a b) := by
  rw [← sameNetwork_iff family mask, and_self_iff]
  cases a with
  | nil => exact family.elim
  | v4 ip bits =>
      cases b with
      | v4 ip' port => exact iff_of_true (containsAddress_v4 mask ip' port) fun h => h.1
      | nil => exact family.elim
      | v6 ip' port => exact family.elim
  | v6 ip bits =>
      cases b with
      | v6 ip' port =>
          rw [containsAddress_v6 mask]
          show (SamePrefix bits.toNat ip ip' ∧ _ ↔ SamePrefix bits.toNat ip ip') ↔
            ¬(_ ∧ SamePrefix bits.toNat ip ip')
          tauto
      | nil => exact family.elim
      | v4 ip' port => exact family.elim

theorem containsAddress_hostBits :
    ((containsAddress (v4 0x0a000001 8) (v4 0x0a636363 0) = true ↔
          SameNetwork (v4 0x0a000001 8) (v4 0x0a636363 0)) ∧
        (containsAddress (v4 0x0a000001 8) (v4 0x0a636363 0) = true ↔
          netmaskBits (v4 0x0a000001 8) ≤ matchingPrefixBits (v4 0x0a000001 8) (v4 0x0a636363 0))) ↔
      ¬(HasHostBits6 (v4 0x0a000001 8) ∧ SameNetwork (v4 0x0a000001 8) (v4 0x0a636363 0)) :=
  containsAddress_iff trivial (show (8 : UInt16) ≤ 32 by decide)

/-- fd00::1/8 does not contain itself. -/
theorem containsAddress_not_self :
    ¬(containsAddress (v6 0xfd000000000000000000000000000001 8)
          (v6 0xfd000000000000000000000000000001 0) = true ↔
        SameNetwork (v6 0xfd000000000000000000000000000001 8)
          (v6 0xfd000000000000000000000000000001 0)) := by
  intro h
  have hsame : SameNetwork (v6 0xfd000000000000000000000000000001 8)
      (v6 0xfd000000000000000000000000000001 0) := fun _ _ => rfl
  exact absurd (h.mpr hsame) (by decide)

end InetAddress

end ZGalaxy
