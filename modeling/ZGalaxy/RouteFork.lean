/-
ZGalaxy/RouteFork.lean

Routes that are made of two halves.

A route to everything is set as two routes that are each more specific by one bit, so that it wins
over the route of the system without replacing it (`_forkTarget`).  The two halves of a network
differ in the first bit behind the netmask, which `_forkTarget` flips in the address of the second:
in the address as one number for IPv4, and in one byte of it for IPv6.  In a byte, the bit is looked
for from the length of the halves instead of that of the network, which is the next byte where this
length is a multiple of eight, and a bit that the byte does not have.

Main result: `forkTarget_iff`, that a network is forked into its halves exactly if it is not one of
those IPv6 networks.
-/
import ZGalaxy.Prefixes

namespace ZGalaxy

/-! ### One bit of a word -/

variable {w : ℕ}

/-- The words differ in bit `n`, counted from the first one, and nowhere else. -/
def FlipsBit (n : ℕ) (x y : BitVec w) : Prop :=
  ∀ i, i < w → y.getMsbD i = if i = n then !x.getMsbD i else x.getMsbD i

/-- The word with bit `n` set alone. -/
theorem getMsbD_bit {n : ℕ} (hn : n < w) {i : ℕ} (hi : i < w) :
    ((1#w) <<< (w - 1 - n)).getMsbD i = decide (i = n) := by
  rw [BitVec.getMsbD_shiftLeft, BitVec.getMsbD_one, decide_eq_true (show 0 < w by omega),
    Bool.and_true]
  exact decide_eq_decide.mpr (by omega)

theorem flipsBit_xor {n : ℕ} (hn : n < w) (x : BitVec w) :
    FlipsBit n x (x ^^^ (1#w) <<< (w - 1 - n)) := by
  intro i hi
  rw [BitVec.getMsbD_xor, getMsbD_bit hn hi]
  by_cases hin : i = n
  · rw [decide_eq_true hin, if_pos hin, Bool.xor_true]
  · rw [decide_eq_false hin, if_neg hin, Bool.xor_false]

/-- The two longer prefixes contain no word in common. -/
theorem FlipsBit.disjoint {n : ℕ} (hn : n < w) {x y : BitVec w} (h : FlipsBit n x y)
    (a : BitVec w) : ¬(SamePrefix (n + 1) x a ∧ SamePrefix (n + 1) y a) := by
  rintro ⟨hx, hy⟩
  have hbit := h n hn
  rw [if_pos rfl, hx n (Nat.lt_succ_self n), hy n (Nat.lt_succ_self n)] at hbit
  exact Bool.not_ne_self _ hbit.symm

/-- The shorter prefix is that of the words with one of the longer ones. -/
theorem FlipsBit.union {n : ℕ} (hn : n < w) {x y : BitVec w} (h : FlipsBit n x y) (a : BitVec w) :
    SamePrefix n x a ↔ SamePrefix (n + 1) x a ∨ SamePrefix (n + 1) y a := by
  have hsame : ∀ i, i < n → y.getMsbD i = x.getMsbD i := by
    intro i hi
    rw [h i (by omega), if_neg (by omega)]
  constructor
  · intro hprefix
    by_cases hbit : x.getMsbD n = a.getMsbD n
    · left
      intro i hi
      rcases Nat.lt_succ_iff_lt_or_eq.mp hi with hi | rfl
      · exact hprefix i hi
      · exact hbit
    · right
      intro i hi
      rcases Nat.lt_succ_iff_lt_or_eq.mp hi with hi | rfl
      · rw [hsame i hi, hprefix i hi]
      · rw [h i hn, if_pos rfl]
        exact (Bool.eq_not_of_ne (Ne.symm hbit)).symm
  · rintro (hx | hy) i hi
    · exact hx i (by omega)
    · rw [← hsame i hi, hy i (by omega)]

/-- No bit is set from bit `n` on. -/
def NoBitsFrom (n : ℕ) (x : BitVec w) : Prop := ∀ i, n ≤ i → x.getMsbD i = false

theorem FlipsBit.noBitsFrom {n : ℕ} {x y : BitVec w} (h : FlipsBit n x y) (hx : NoBitsFrom n x) :
    NoBitsFrom (n + 1) y := by
  intro i hi
  by_cases hiw : i < w
  · rw [h i hiw, if_neg (by omega), hx i (by omega)]
  · exact BitVec.getMsbD_of_ge y i (by omega)

namespace InetAddress

/-! ### The fork -/

/-- The length of an address, in bits. -/
def width : InetAddress → ℕ
  | v4 _ _ => 32
  | v6 _ _ => 128
  | nil => 0

/-- No bit of the address is set behind the netmask. -/
def NoHostBits : InetAddress → Prop
  | v4 ip bits => NoBitsFrom bits.toNat ip
  | v6 ip bits => NoBitsFrom bits.toNat ip
  | nil => True

/-- What `_forkTarget` leaves behind: the halves, and the elements of `sin6_addr.s6_addr` that it
writes to. -/
structure Fork where
  left : InetAddress
  right : InetAddress
  written : List ℕ

/-- `b[i] ^= m` on the bytes of an IPv6 address.  What stands behind them is not part of it. -/
def xorByte (ip : BitVec 128) (i : ℕ) (m : BitVec 8) : BitVec 128 :=
  if i < 16 then ip ^^^ m.setWidth 128 <<< (120 - 8 * i) else ip

/-- `_forkTarget`. -/
def forkTarget : InetAddress → Fork
  | nil => ⟨nil, nil, []⟩
  | v4 ip n =>
      let bits := n.toNat + 1
      if bits ≤ 32 then
        ⟨v4 ip (UInt16.ofNat bits), v4 (ip ^^^ 1#32 <<< (32 - bits)) (UInt16.ofNat bits), []⟩
      else ⟨v4 ip n, nil, []⟩
  | v6 ip n =>
      let bits := n.toNat + 1
      if bits ≤ 128 then
        -- the integer is cut off to a byte where it is put back
        let m := BitVec.ofNat 8 (1 <<< (8 - bits % 8))
        ⟨v6 ip (UInt16.ofNat bits), v6 (xorByte ip (bits / 8) m) (UInt16.ofNat bits), [bits / 8]⟩
      else ⟨v6 ip n, nil, []⟩

/-- The prefixes are the halves of the network. -/
structure Halves (t : InetAddress) (fork : Fork) : Prop where
  left : fork.left.netmaskBits = t.netmaskBits + 1
  right : fork.right.netmaskBits = t.netmaskBits + 1
  disjoint : ∀ a, ¬(fork.left.containsAddress a = true ∧ fork.right.containsAddress a = true)
  union : ∀ a, t.containsAddress a = true ↔
    fork.left.containsAddress a = true ∨ fork.right.containsAddress a = true
  inBounds : ∀ i ∈ fork.written, i < 16

/-- A network is forked into its halves, or is one address and stays as it is. -/
def Forks (t : InetAddress) (fork : Fork) : Prop :=
  (t.netmaskBits < t.width → Halves t fork) ∧
    (t.netmaskBits = t.width → fork = ⟨t, nil, []⟩)

/-! ### IPv4 -/

theorem toNat_bits {n : UInt16} {width : ℕ} (hn : n.toNat < width) (hwidth : width ≤ 128) :
    (UInt16.ofNat (n.toNat + 1)).toNat = n.toNat + 1 :=
  UInt16.toNat_ofNat_of_lt' (show n.toNat + 1 < 65536 by omega)

theorem halves_v4 {ip : BitVec 32} {n : UInt16} (hn : n.toNat < 32) :
    Halves (v4 ip n) (forkTarget (v4 ip n)) := by
  have hbits := toNat_bits hn (by decide)
  have hmask : UInt16.ofNat (n.toNat + 1) ≤ 32 := by
    show (UInt16.ofNat (n.toNat + 1)).toNat ≤ 32
    omega
  have hflip := flipsBit_xor hn ip
  have hfork : forkTarget (v4 ip n) = ⟨v4 ip (UInt16.ofNat (n.toNat + 1)),
      v4 (ip ^^^ 1#32 <<< (32 - (n.toNat + 1))) (UInt16.ofNat (n.toNat + 1)), []⟩ :=
    if_pos (show n.toNat + 1 ≤ 32 by omega)
  have hshift : 32 - (n.toNat + 1) = 32 - 1 - n.toNat := by omega
  rw [hfork, hshift]
  refine ⟨hbits, hbits, fun a => ?_, fun a => ?_, fun i hi => absurd hi List.not_mem_nil⟩
  · rcases a with - | ⟨addr, port⟩ | ⟨addr, port⟩
    · exact fun h => Bool.false_ne_true h.1
    · rw [containsAddress_v4 hmask, containsAddress_v4 hmask, hbits]
      exact hflip.disjoint hn addr
    · exact fun h => Bool.false_ne_true h.1
  · rcases a with - | ⟨addr, port⟩ | ⟨addr, port⟩
    · exact iff_of_false Bool.false_ne_true fun h => h.elim Bool.false_ne_true Bool.false_ne_true
    · rw [containsAddress_v4 hmask, containsAddress_v4 hmask, hbits,
        containsAddress_v4 (show n.toNat ≤ 32 by omega)]
      exact hflip.union hn addr
    · exact iff_of_false Bool.false_ne_true fun h => h.elim Bool.false_ne_true Bool.false_ne_true

/-! ### IPv6 -/

/-- The bit of a byte, in its place in the address. -/
theorem setWidth_shiftLeft_bit {n : ℕ} (hn : n < 128) (hbyte : (n + 1) % 8 ≠ 0) :
    (BitVec.ofNat 8 (1 <<< (8 - (n + 1) % 8))).setWidth 128 <<< (120 - 8 * ((n + 1) / 8)) =
      1#128 <<< (128 - 1 - n) := by
  have hexp : 8 - (n + 1) % 8 + (120 - 8 * ((n + 1) / 8)) = 128 - 1 - n := by omega
  have hsmall : 1 <<< (8 - (n + 1) % 8) < 2 ^ 8 := by
    rw [Nat.one_shiftLeft]
    exact Nat.pow_lt_pow_right (by decide) (by omega)
  apply BitVec.eq_of_toNat_eq
  rw [BitVec.toNat_shiftLeft, BitVec.toNat_shiftLeft, BitVec.toNat_setWidth, BitVec.toNat_ofNat,
    BitVec.toNat_ofNat, Nat.mod_eq_of_lt hsmall,
    Nat.mod_eq_of_lt (hsmall.trans (Nat.pow_lt_pow_right (by decide) (by decide))),
    Nat.mod_eq_of_lt (show 1 < 2 ^ 128 by norm_num), ← hexp, Nat.shiftLeft_add]

theorem flipsBit_xorByte {n : ℕ} (hn : n < 128) (hbyte : (n + 1) % 8 ≠ 0) (ip : BitVec 128) :
    FlipsBit n ip (xorByte ip ((n + 1) / 8) (BitVec.ofNat 8 (1 <<< (8 - (n + 1) % 8)))) := by
  unfold xorByte
  rw [if_pos (by omega), setWidth_shiftLeft_bit hn hbyte]
  exact flipsBit_xor hn ip

/-- The bit that a byte does not have is lost. -/
theorem xorByte_lost {n : ℕ} (hbyte : (n + 1) % 8 = 0) (ip : BitVec 128) :
    xorByte ip ((n + 1) / 8) (BitVec.ofNat 8 (1 <<< (8 - (n + 1) % 8))) = ip := by
  have hlost : BitVec.ofNat 8 (1 <<< (8 - 0)) = 0#8 := by decide
  unfold xorByte
  rw [hbyte, hlost, BitVec.setWidth_zero, BitVec.zero_shiftLeft, BitVec.xor_zero, ite_self]

theorem forkTarget_v6 {ip : BitVec 128} {n : UInt16} (hn : n.toNat < 128) :
    forkTarget (v6 ip n) = ⟨v6 ip (UInt16.ofNat (n.toNat + 1)),
      v6 (xorByte ip ((n.toNat + 1) / 8) (BitVec.ofNat 8 (1 <<< (8 - (n.toNat + 1) % 8))))
        (UInt16.ofNat (n.toNat + 1)), [(n.toNat + 1) / 8]⟩ :=
  if_pos (show n.toNat + 1 ≤ 128 by omega)

theorem not_hasHostBits6_iff {ip : BitVec 128} {n : UInt16} :
    ¬HasHostBits6 (v6 ip n) ↔ NoBitsFrom n.toNat ip := by
  show (¬∃ i, n.toNat ≤ i ∧ ip.getMsbD i = true) ↔ _
  push Not
  simp only [NoBitsFrom, ne_eq, Bool.not_eq_true]

/-- A network without host bits contains the addresses with its prefix. -/
theorem containsAddress_v6_of_noBits {net : BitVec 128} {bits : UInt16} (hbits : bits ≤ 128)
    (hnet : NoBitsFrom bits.toNat net) (addr : BitVec 128) (port : UInt16) :
    containsAddress (v6 net bits) (v6 addr port) = true ↔ SamePrefix bits.toNat net addr := by
  rw [containsAddress_v6 hbits]
  exact and_iff_left (not_hasHostBits6_iff.mpr hnet)

theorem halves_v6 {ip : BitVec 128} {n : UInt16} (hn : n.toNat < 128)
    (hnet : NoBitsFrom n.toNat ip) (hbyte : (n.toNat + 1) % 8 ≠ 0) :
    Halves (v6 ip n) (forkTarget (v6 ip n)) := by
  have hbits := toNat_bits hn le_rfl
  have hmask : UInt16.ofNat (n.toNat + 1) ≤ 128 := by
    show (UInt16.ofNat (n.toNat + 1)).toNat ≤ 128
    omega
  have hflip := flipsBit_xorByte hn hbyte ip
  have hleft : NoBitsFrom (UInt16.ofNat (n.toNat + 1)).toNat ip := by
    rw [hbits]
    exact fun i hi => hnet i (by omega)
  rw [forkTarget_v6 hn]
  generalize xorByte ip ((n.toNat + 1) / 8) (BitVec.ofNat 8 (1 <<< (8 - (n.toNat + 1) % 8))) = ip'
    at hflip ⊢
  have hright : NoBitsFrom (UInt16.ofNat (n.toNat + 1)).toNat ip' := by
    rw [hbits]
    exact hflip.noBitsFrom hnet
  refine ⟨hbits, hbits, fun a => ?_, fun a => ?_, fun i hi => ?_⟩
  · rcases a with - | ⟨addr, port⟩ | ⟨addr, port⟩
    · exact fun h => Bool.false_ne_true h.1
    · exact fun h => Bool.false_ne_true h.1
    · rw [containsAddress_v6_of_noBits hmask hleft, containsAddress_v6_of_noBits hmask hright,
        hbits]
      exact hflip.disjoint hn addr
  · rcases a with - | ⟨addr, port⟩ | ⟨addr, port⟩
    · exact iff_of_false Bool.false_ne_true fun h => h.elim Bool.false_ne_true Bool.false_ne_true
    · exact iff_of_false Bool.false_ne_true fun h => h.elim Bool.false_ne_true Bool.false_ne_true
    · rw [containsAddress_v6_of_noBits hmask hleft, containsAddress_v6_of_noBits hmask hright,
        hbits, containsAddress_v6_of_noBits (show n.toNat ≤ 128 by omega) hnet]
      exact hflip.union hn addr
  · rw [List.mem_singleton.mp hi]
    omega

/-- Where the bit is lost, both halves are the same network. -/
theorem not_halves_v6 {ip : BitVec 128} {n : UInt16} (hn : n.toNat < 128)
    (hnet : NoBitsFrom n.toNat ip) (hbyte : (n.toNat + 1) % 8 = 0) :
    ¬Halves (v6 ip n) (forkTarget (v6 ip n)) := by
  have hbits := toNat_bits hn le_rfl
  have hmask : UInt16.ofNat (n.toNat + 1) ≤ 128 := by
    show (UInt16.ofNat (n.toNat + 1)).toNat ≤ 128
    omega
  have hleft : NoBitsFrom (UInt16.ofNat (n.toNat + 1)).toNat ip := by
    rw [hbits]
    exact fun i hi => hnet i (by omega)
  have hself : containsAddress (v6 ip (UInt16.ofNat (n.toNat + 1))) (v6 ip 0) = true :=
    (containsAddress_v6_of_noBits hmask hleft ip 0).mpr fun _ _ => rfl
  rw [forkTarget_v6 hn, xorByte_lost hbyte]
  intro h
  exact h.disjoint (v6 ip 0) ⟨hself, hself⟩

/-! ### When a network is forked -/

/-- **Route forking**: a network without host bits is forked into its halves, or left as it is if
it is one address, exactly unless it is an IPv6 network whose halves have a length that is a
multiple of eight. -/
theorem forkTarget_iff {t : InetAddress} (target : t.isSet = true) (mask : t.HasNetmask)
    (hosts : t.NoHostBits) :
    Forks t (forkTarget t) ↔ (t.isV6 = true → (t.netmaskBits + 1) % 8 ≠ 0) := by
  rcases t with - | ⟨ip, n⟩ | ⟨ip, n⟩
  · cases target
  · -- IPv4: always
    refine iff_of_true ⟨fun hn => halves_v4 hn, fun hfull => ?_⟩
      fun h => absurd h Bool.false_ne_true
    have hlong : ¬n.toNat + 1 ≤ 32 := by
      have : n.toNat = 32 := hfull
      omega
    exact if_neg hlong
  · -- IPv6: a network of full length is no exception, as 129 is not a multiple of eight
    have hle : n.toNat ≤ 128 := mask
    have hfull : n.toNat = 128 → forkTarget (v6 ip n) = ⟨v6 ip n, nil, []⟩ :=
      fun h => if_neg (show ¬n.toNat + 1 ≤ 128 by omega)
    constructor
    · rintro ⟨hhalves, -⟩ - hbyte
      have hn : n.toNat < 128 := by
        have : (n.toNat + 1) % 8 = 0 := hbyte
        omega
      exact not_halves_v6 hn hosts hbyte (hhalves hn)
    · intro hbyte
      exact ⟨fun hn => halves_v6 hn hosts (hbyte rfl), hfull⟩

/-- The route to everything over IPv6. -/
theorem forkTarget_default :
    Forks (v6 0 0) (forkTarget (v6 0 0)) ↔
      (isV6 (v6 0 0) = true → (netmaskBits (v6 0 0) + 1) % 8 ≠ 0) :=
  forkTarget_iff rfl (show (0 : UInt16) ≤ 128 by decide) fun i _ => BitVec.getMsbD_zero

/-- 2000::/7 is not forked. -/
theorem forkTarget_two_thousand :
    ¬∀ t : InetAddress, t.isSet = true → t.HasNetmask → t.NoHostBits → Forks t (forkTarget t) := by
  intro h
  have hosts : NoBitsFrom 7 (0x20000000000000000000000000000000 : BitVec 128) := by
    have hall : ∀ i < 128, 7 ≤ i →
        (0x20000000000000000000000000000000 : BitVec 128).getMsbD i = false := by decide
    intro i hi
    by_cases hi' : i < 128
    · exact hall i hi' hi
    · exact BitVec.getMsbD_of_ge _ i (by omega)
  have hforks := h (v6 0x20000000000000000000000000000000 7) rfl
    (show (7 : UInt16) ≤ 128 by decide) hosts
  exact not_halves_v6 (n := 7) (by decide) hosts (by decide) (hforks.1 (by decide))

end InetAddress

end ZGalaxy
