/-
ZGalaxy/Poly1305Wide.lean

Poly1305 with products of 128 bits: the build for 64-bit processors.

A number below `2 ^ 130` is kept in limbs of 44, 44 and 42 bits.  One step of the loop adds a block,
multiplies by the key with the part above bit 130 folded back (`r1` and `r2` times `20`, which is
`5 * 4`), and carries once around.  The carries are not carried to the end: the middle limb may stay
a little above 44 bits (`Limbs.Bounded`), and the bounds say that no sum and no product leaves its
word.  `poly1305_finish` carries twice around, after which the limbs are the digits of a number below
`2 ^ 130`, subtracts the modulus if that leaves nothing negative, with a mask made of the sign bit,
and adds the pad.

Main result: `compute_eq_tag`, for keys of 32 bytes and messages of any length.
-/
import ZGalaxy.Poly1305

namespace ZGalaxy

open ByteList Words

namespace Poly1305

namespace Wide

/-! ### The source -/

/-- The limbs of a number. -/
structure Limbs where
  h0 : BitVec 64
  h1 : BitVec 64
  h2 : BitVec 64

/-- The words of the pad. -/
structure Pad where
  pad0 : BitVec 64
  pad1 : BitVec 64

/-- `U8TO64`. -/
def u8to64 (p : Bytes) (i : ℕ) : BitVec 64 := BitVec.ofNat 64 (leValue (slice p i 8))

/-- The bits of a limb. -/
def mask44 : BitVec 64 := 0xfffffffffff

/-- The bits of the highest limb. -/
def mask42 : BitVec 64 := 0x3ffffffffff

/-- `poly1305_init`, which leaves the buffer as it is. -/
def init (buffer key : Bytes) : State Limbs Pad :=
  let t0 := u8to64 key 0
  let t1 := u8to64 key 8
  { r := ⟨t0 &&& 0xffc0fffffff, (t0 >>> 44 ||| t1 <<< 20) &&& 0xfffffc0ffff,
      (t1 >>> 24) &&& 0x00ffffffc0f⟩
    h := ⟨0, 0, 0⟩
    pad := ⟨u8to64 key 16, u8to64 key 24⟩
    leftover := 0
    buffer := buffer
    final := false }

/-- `hibit`: the bit above a block that is not closed in the buffer. -/
def hibit (final : Bool) : BitVec 64 := if final then 0 else 1#64 <<< 40

/-- `h += m[i]`. -/
def addBlock (final : Bool) (h : Limbs) (m : Bytes) : Limbs :=
  let t0 := u8to64 m 0
  let t1 := u8to64 m 8
  ⟨h.h0 + (t0 &&& mask44),
    h.h1 + ((t0 >>> 44 ||| t1 <<< 20) &&& mask44),
    h.h2 + (((t1 >>> 24) &&& mask42) ||| hibit final)⟩

/-- `MUL`: the product of two words, in 128 bits. -/
def wide (x y : BitVec 64) : BitVec 128 := x.setWidth 128 * y.setWidth 128

/-- The sums of products that a multiplication leaves. -/
structure Products where
  d0 : BitVec 128
  d1 : BitVec 128
  d2 : BitVec 128

/-- `h *= r`. -/
def mulKey (r h : Limbs) : Products :=
  let s1 := r.h1 * 20
  let s2 := r.h2 * 20
  ⟨wide h.h0 r.h0 + wide h.h1 s2 + wide h.h2 s1,
    wide h.h0 r.h1 + wide h.h1 r.h0 + wide h.h2 s2,
    wide h.h0 r.h2 + wide h.h1 r.h1 + wide h.h2 r.h0⟩

/-- `(partial) h %= p`. -/
def reduce (d : Products) : Limbs :=
  let c := (d.d0 >>> 44).setWidth 64
  let h0 := d.d0.setWidth 64 &&& mask44
  let d1 := d.d1 + c.setWidth 128
  let c := (d1 >>> 44).setWidth 64
  let h1 := d1.setWidth 64 &&& mask44
  let d2 := d.d2 + c.setWidth 128
  let c := (d2 >>> 42).setWidth 64
  let h2 := d2.setWidth 64 &&& mask42
  let h0 := h0 + c * 5
  let c := h0 >>> 44
  ⟨h0 &&& mask44, h1 + c, h2⟩

/-- The body of the loop of `poly1305_blocks`. -/
def body (final : Bool) (r h : Limbs) (m : Bytes) : Limbs := reduce (mulKey r (addBlock final h m))

/-- `fully carry h`, one time around: from the middle limb to the lowest. -/
def carryAround (h : Limbs) : Limbs :=
  let c := h.h1 >>> 44
  let h1 := h.h1 &&& mask44
  let h2 := h.h2 + c
  let c := h2 >>> 42
  let h2 := h2 &&& mask42
  let h0 := h.h0 + c * 5
  let c := h0 >>> 44
  ⟨h0 &&& mask44, h1 + c, h2⟩

/-- `compute h + -p`. -/
def subPrime (h : Limbs) : Limbs :=
  let g0 := h.h0 + 5
  let c := g0 >>> 44
  let g0 := g0 &&& mask44
  let g1 := h.h1 + c
  let c := g1 >>> 44
  let g1 := g1 &&& mask44
  ⟨g0, g1, h.h2 + c - 1#64 <<< 42⟩

/-- `select h if h < p, or h + -p if h >= p`. -/
def selectReduced (h : Limbs) : Limbs :=
  let g := subPrime h
  let c := g.h2 >>> 63 - 1
  ⟨(h.h0 &&& ~~~c) ||| (g.h0 &&& c), (h.h1 &&& ~~~c) ||| (g.h1 &&& c),
    (h.h2 &&& ~~~c) ||| (g.h2 &&& c)⟩

/-- `h = (h + pad)`. -/
def addPad (pad : Pad) (h : Limbs) : Limbs :=
  let t0 := pad.pad0
  let t1 := pad.pad1
  let h0 := h.h0 + (t0 &&& mask44)
  let c := h0 >>> 44
  let h0 := h0 &&& mask44
  let h1 := h.h1 + ((t0 >>> 44 ||| t1 <<< 20) &&& mask44) + c
  let c := h1 >>> 44
  let h1 := h1 &&& mask44
  let h2 := h.h2 + ((t1 >>> 24) &&& mask42) + c
  ⟨h0, h1, h2 &&& mask42⟩

/-- `mac = h % (2^128)`, with `U64TO8` of both words. -/
def mac (h : Limbs) : Bytes :=
  leDigits 8 (h.h0 ||| h.h1 <<< 44).toNat ++ leDigits 8 (h.h1 >>> 20 ||| h.h2 <<< 24).toNat

/-- `poly1305_finish` past the last block. -/
def finish (st : State Limbs Pad) : Bytes :=
  mac (addPad st.pad (selectReduced (carryAround (carryAround st.h))))

/-- `Poly1305::compute`. -/
def compute (buffer data key : Bytes) : Bytes :=
  finish (accumulated body (init buffer key) data)

/-! ### Words of a block -/

/-- The number that limbs stand for. -/
def Limbs.value (h : Limbs) : ℕ := h.h0.toNat + 2 ^ 44 * h.h1.toNat + 2 ^ 88 * h.h2.toNat

/-- The number of two words. -/
def twoWords (t0 t1 : BitVec 64) : ℕ := t0.toNat + 2 ^ 64 * t1.toNat

theorem twoWords_lt (t0 t1 : BitVec 64) : twoWords t0 t1 < 2 ^ 128 := by
  have := t0.isLt
  have := t1.isLt
  unfold twoWords
  omega

theorem toNat_u8to64 {p : Bytes} {i : ℕ} : (u8to64 p i).toNat = leValue (slice p i 8) := by
  have hlt := leValue_lt (slice p i 8)
  have hlen : (slice p i 8).length ≤ 8 := List.length_take_le _ _
  have hpow : 256 ^ (slice p i 8).length ≤ 256 ^ 8 := Nat.pow_le_pow_right (by decide) hlen
  exact Nat.mod_eq_of_lt (hlt.trans_le (hpow.trans (by norm_num)))

/-- The two words of a field of 16 bytes. -/
theorem twoWords_u8to64 {p : Bytes} {i : ℕ} (h : i + 16 ≤ p.length) :
    twoWords (u8to64 p i) (u8to64 p (i + 8)) = leValue (slice p i 16) := by
  rw [twoWords, toNat_u8to64, toNat_u8to64, ← slice_append_slice p i 8 8, leValue_append,
    length_slice (by omega)]
  norm_num

theorem toNat_mask44 (x : BitVec 64) : (x &&& mask44).toNat = x.toNat % 2 ^ 44 :=
  toNat_and_mask x (n := 44) (by decide)

theorem toNat_mask42 (x : BitVec 64) : (x &&& mask42).toNat = x.toNat % 2 ^ 42 :=
  toNat_and_mask x (n := 42) (by decide)

theorem low_limb (t0 t1 : BitVec 64) :
    (t0 &&& mask44).toNat = twoWords t0 t1 % 2 ^ 44 := by
  rw [toNat_mask44, twoWords]
  omega

theorem middle_bits (t0 t1 : BitVec 64) :
    (t0 >>> 44 ||| t1 <<< 20).toNat = twoWords t0 t1 / 2 ^ 44 % 2 ^ 64 :=
  toNat_shiftRight_or_shiftLeft t0 t1 (by decide)

theorem middle_limb (t0 t1 : BitVec 64) :
    ((t0 >>> 44 ||| t1 <<< 20) &&& mask44).toNat = twoWords t0 t1 / 2 ^ 44 % 2 ^ 44 := by
  rw [toNat_mask44, middle_bits]
  omega

theorem high_bits (t0 t1 : BitVec 64) : (t1 >>> 24).toNat = twoWords t0 t1 / 2 ^ 88 := by
  have := t0.isLt
  rw [toNat_shiftRight, twoWords]
  omega

theorem high_limb (t0 t1 : BitVec 64) :
    ((t1 >>> 24) &&& mask42).toNat = twoWords t0 t1 / 2 ^ 88 := by
  have := twoWords_lt t0 t1
  rw [toNat_mask42, high_bits t0]
  omega

/-! ### The key -/

/-- What the clamped key is below. -/
structure Limbs.KeyBounded (r : Limbs) : Prop where
  h0 : r.h0.toNat < 2 ^ 44
  h1 : r.h1.toNat < 2 ^ 44
  h2 : r.h2.toNat < 2 ^ 36

theorem init_keyBounded (buffer key : Bytes) : (init buffer key).r.KeyBounded := by
  refine ⟨?_, ?_, ?_⟩ <;> exact (BitVec.toNat_and _ _).trans_lt (Nat.and_lt_two_pow _ (by decide))

/-- **The limbs of the clamped key** are the clamped key. -/
theorem value_init (buffer : Bytes) {key : Bytes} (h : 16 ≤ key.length) :
    (init buffer key).r.value = point key := by
  set T := twoWords (u8to64 key 0) (u8to64 key 8) with hT
  have hlt : T < 2 ^ 128 := twoWords_lt _ _
  have h0 : (init buffer key).r.h0.toNat = T % 2 ^ 44 &&& 0xffc0fffffff := by
    have hlow : (u8to64 key 0).toNat % 2 ^ 44 = T % 2 ^ 44 := by
      rw [hT, twoWords]
      omega
    rw [← hlow, mod_two_pow_and _ (by decide)]
    exact BitVec.toNat_and _ _
  have h1 : (init buffer key).r.h1.toNat = T / 2 ^ 44 % 2 ^ 44 &&& 0xfffffc0ffff := by
    have hlow : T / 2 ^ 44 % 2 ^ 64 % 2 ^ 44 = T / 2 ^ 44 % 2 ^ 44 := by omega
    rw [← hlow, mod_two_pow_and _ (by decide), hT, ← middle_bits]
    exact BitVec.toNat_and _ _
  have h2 : (init buffer key).r.h2.toNat = T / 2 ^ 88 &&& 0x00ffffffc0f := by
    rw [← high_bits (u8to64 key 0)]
    exact BitVec.toNat_and _ _
  -- the key and the mask are cut at bits 44 and 88 alike
  have hcut : T = T % 2 ^ 44 + 2 ^ 44 * (T / 2 ^ 44 % 2 ^ 44 + 2 ^ 44 * (T / 2 ^ 88)) := by omega
  have hmask : clampMask = 0xffc0fffffff + 2 ^ 44 * (0xfffffc0ffff + 2 ^ 44 * 0x00ffffffc0f) := by
    norm_num [clampMask]
  rw [point, ← twoWords_u8to64 h, ← hT, hmask, Limbs.value, h0, h1, h2]
  conv_rhs => rw [hcut]
  rw [and_add_two_pow_mul _ _ (Nat.mod_lt _ (by decide)) (by decide),
    and_add_two_pow_mul _ _ (Nat.mod_lt _ (by decide)) (by decide)]
  ring

/-! ### One step of the loop -/

/-- The limbs between two steps. -/
structure Limbs.Bounded (h : Limbs) : Prop where
  h0 : h.h0.toNat < 2 ^ 44
  h1 : h.h1.toNat < 2 ^ 44 + 2 ^ 8
  h2 : h.h2.toNat < 2 ^ 42

/-- The limbs of a block, added. -/
theorem value_addBlock (final : Bool) {h : Limbs} (hh : h.Bounded) {m : Bytes}
    (hm : m.length = 16) :
    (addBlock final h m).h0.toNat < 2 ^ 45 ∧ (addBlock final h m).h1.toNat < 2 ^ 45 + 2 ^ 8 ∧
      (addBlock final h m).h2.toNat < 2 ^ 43 ∧
      (addBlock final h m).value = h.value + (leValue m + if final then 0 else 2 ^ 128) := by
  obtain ⟨b0, b1, b2⟩ := hh
  have hT : twoWords (u8to64 m 0) (u8to64 m 8) = leValue m := by
    rw [twoWords_u8to64 (by omega), slice, List.drop_zero, List.take_of_length_le (by omega)]
  have hlt := twoWords_lt (u8to64 m 0) (u8to64 m 8)
  rw [hT] at hlt
  have m0 : (u8to64 m 0 &&& mask44).toNat = leValue m % 2 ^ 44 := by
    rw [low_limb _ (u8to64 m 8), hT]
  have m1 : ((u8to64 m 0 >>> 44 ||| u8to64 m 8 <<< 20) &&& mask44).toNat
      = leValue m / 2 ^ 44 % 2 ^ 44 := by rw [middle_limb, hT]
  have m2 : (((u8to64 m 8 >>> 24) &&& mask42) ||| hibit final).toNat
      = leValue m / 2 ^ 88 + if final then 0 else 2 ^ 40 := by
    rw [BitVec.toNat_or, high_limb (u8to64 m 0), hT]
    cases final
    · exact or_eq_add (by omega) (Nat.dvd_refl (2 ^ 40))
    · exact Nat.or_zero _
  have e0 : (addBlock final h m).h0.toNat = h.h0.toNat + leValue m % 2 ^ 44 := by
    rw [← m0]
    exact toNat_add (by omega)
  have e1 : (addBlock final h m).h1.toNat = h.h1.toNat + leValue m / 2 ^ 44 % 2 ^ 44 := by
    rw [← m1]
    exact toNat_add (by omega)
  have e2 : (addBlock final h m).h2.toNat
      = h.h2.toNat + (leValue m / 2 ^ 88 + if final then 0 else 2 ^ 40) := by
    rw [← m2]
    refine toNat_add ?_
    rw [m2]
    split_ifs <;> omega
  rw [Limbs.value, Limbs.value, e0, e1, e2]
  cases final
  · simp only [Bool.false_eq_true, if_false]
    omega
  · simp only [if_true]
    omega

@[simp] theorem toNat_wide (x y : BitVec 64) : (wide x y).toNat = x.toNat * y.toNat := by
  have hx := x.isLt
  have hy := y.isLt
  have hmul : x.toNat * y.toNat < 2 ^ 64 * 2 ^ 64 := Nat.mul_lt_mul'' hx hy
  rw [wide, BitVec.toNat_mul, BitVec.toNat_setWidth, BitVec.toNat_setWidth]
  rw [Nat.mod_eq_of_lt (by omega : x.toNat < 2 ^ 128),
    Nat.mod_eq_of_lt (by omega : y.toNat < 2 ^ 128), Nat.mod_eq_of_lt (by omega)]

/-- The sums of products are exact, and together they are the product modulo `prime`: what
`mulKey` folds back is a multiple of it. -/
theorem value_mulKey {r h : Limbs} (hr : r.KeyBounded) (h0 : h.h0.toNat < 2 ^ 45)
    (h1 : h.h1.toNat < 2 ^ 45 + 2 ^ 8) (h2 : h.h2.toNat < 2 ^ 43) :
    let d := mulKey r h
    d.d0.toNat < 2 ^ 93 ∧ d.d1.toNat < 2 ^ 91 ∧ d.d2.toNat < 2 ^ 91 ∧
      ∃ k, d.d0.toNat + 2 ^ 44 * d.d1.toNat + 2 ^ 88 * d.d2.toNat + prime * k
        = h.value * r.value := by
  obtain ⟨b0, b1, b2⟩ := hr
  have s1 : (r.h1 * 20).toNat = r.h1.toNat * 20 := toNat_mul (by
    show r.h1.toNat * 20 < 2 ^ 64
    omega)
  have s2 : (r.h2 * 20).toNat = r.h2.toNat * 20 := toNat_mul (by
    show r.h2.toNat * 20 < 2 ^ 64
    omega)
  have hmul : ∀ {x y a b : ℕ}, x ≤ a → y ≤ b → x * y ≤ a * b := Nat.mul_le_mul
  have p00 := hmul (Nat.le_of_lt h0) (Nat.le_of_lt b0)
  have p01 := hmul (Nat.le_of_lt h0) (Nat.le_of_lt b1)
  have p02 := hmul (Nat.le_of_lt h0) (Nat.le_of_lt b2)
  have p10 := hmul (Nat.le_of_lt h1) (Nat.le_of_lt b0)
  have p11 := hmul (Nat.le_of_lt h1) (Nat.le_of_lt b1)
  have p12 := hmul (Nat.le_of_lt h1) (Nat.le_of_lt b2)
  have p20 := hmul (Nat.le_of_lt h2) (Nat.le_of_lt b0)
  have p21 := hmul (Nat.le_of_lt h2) (Nat.le_of_lt b1)
  have p22 := hmul (Nat.le_of_lt h2) (Nat.le_of_lt b2)
  have d0 : (mulKey r h).d0.toNat = h.h0.toNat * r.h0.toNat + 20 * (h.h1.toNat * r.h2.toNat)
      + 20 * (h.h2.toNat * r.h1.toNat) := by
    simp only [mulKey, BitVec.toNat_add, toNat_wide, s1, s2]
    rw [← Nat.mul_assoc h.h1.toNat, ← Nat.mul_assoc h.h2.toNat]
    omega
  have d1 : (mulKey r h).d1.toNat = h.h0.toNat * r.h1.toNat + h.h1.toNat * r.h0.toNat
      + 20 * (h.h2.toNat * r.h2.toNat) := by
    simp only [mulKey, BitVec.toNat_add, toNat_wide, s2]
    rw [← Nat.mul_assoc h.h2.toNat]
    omega
  have d2 : (mulKey r h).d2.toNat = h.h0.toNat * r.h2.toNat + h.h1.toNat * r.h1.toNat
      + h.h2.toNat * r.h0.toNat := by
    simp only [mulKey, BitVec.toNat_add, toNat_wide]
    omega
  refine ⟨by rw [d0]; omega, by rw [d1]; omega, by rw [d2]; omega,
    4 * (h.h1.toNat * r.h2.toNat + h.h2.toNat * r.h1.toNat
      + 2 ^ 44 * (h.h2.toNat * r.h2.toNat)), ?_⟩
  rw [d0, d1, d2, Limbs.value, Limbs.value, show prime = 2 ^ 130 - 5 from rfl]
  norm_num only
  ring

/-- What is carried out of a sum of products. -/
theorem toNat_carry {d : BitVec 128} {n : ℕ} (h : d.toNat < 2 ^ 64 * 2 ^ n) :
    ((d >>> n).setWidth 64).toNat = d.toNat / 2 ^ n := by
  rw [BitVec.toNat_setWidth, toNat_shiftRight, Nat.mod_eq_of_lt]
  exact Nat.div_lt_of_lt_mul (by rwa [Nat.mul_comm])

/-- What is carried into the next one. -/
theorem toNat_addCarry {d : BitVec 128} {c : BitVec 64} (h : d.toNat < 2 ^ 127) :
    (d + c.setWidth 128).toNat = d.toNat + c.toNat := by
  have hc := c.isLt
  have hw : (c.setWidth 128).toNat = c.toNat :=
    BitVec.toNat_setWidth_of_le (by decide)
  rw [toNat_add (by rw [hw]; omega), hw]

/-- Carrying once around gives limbs within the bounds, and changes the number by a multiple of the
modulus. -/
theorem value_reduce {d : Products} (h0 : d.d0.toNat < 2 ^ 93) (h1 : d.d1.toNat < 2 ^ 91)
    (h2 : d.d2.toNat < 2 ^ 91) :
    (reduce d).Bounded ∧ ∃ k,
      (reduce d).value + prime * k = d.d0.toNat + 2 ^ 44 * d.d1.toNat + 2 ^ 88 * d.d2.toNat := by
  obtain ⟨c0, hc0⟩ : ∃ c, c = (d.d0 >>> 44).setWidth 64 := ⟨_, rfl⟩
  obtain ⟨d1, hd1⟩ : ∃ d1, d1 = d.d1 + c0.setWidth 128 := ⟨_, rfl⟩
  obtain ⟨c1, hc1⟩ : ∃ c, c = (d1 >>> 44).setWidth 64 := ⟨_, rfl⟩
  obtain ⟨d2, hd2⟩ : ∃ d2, d2 = d.d2 + c1.setWidth 128 := ⟨_, rfl⟩
  obtain ⟨c2, hc2⟩ : ∃ c, c = (d2 >>> 42).setWidth 64 := ⟨_, rfl⟩
  obtain ⟨l0, hl0⟩ : ∃ l, l = (d.d0.setWidth 64 &&& mask44) + c2 * 5 := ⟨_, rfl⟩
  have hreduce : reduce d = ⟨l0 &&& mask44,
      (d1.setWidth 64 &&& mask44) + (l0 >>> 44), d2.setWidth 64 &&& mask42⟩ := by
    rw [hl0, hc2, hd2, hc1, hd1, hc0]
    rfl
  have n0 : c0.toNat = d.d0.toNat / 2 ^ 44 := hc0 ▸ toNat_carry (by omega)
  have m1 : d1.toNat = d.d1.toNat + c0.toNat := hd1 ▸ toNat_addCarry (by omega)
  have n1 : c1.toNat = d1.toNat / 2 ^ 44 := hc1 ▸ toNat_carry (by omega)
  have m2 : d2.toNat = d.d2.toNat + c1.toNat := hd2 ▸ toNat_addCarry (by omega)
  have n2 : c2.toNat = d2.toNat / 2 ^ 42 := hc2 ▸ toNat_carry (by omega)
  have n5 : (c2 * 5).toNat = c2.toNat * 5 := toNat_mul (by
    show c2.toNat * 5 < 2 ^ 64
    omega)
  have low : ∀ e : BitVec 128, (e.setWidth 64 &&& mask44).toNat = e.toNat % 2 ^ 44 := by
    intro e
    rw [toNat_mask44, BitVec.toNat_setWidth]
    omega
  have high : (d2.setWidth 64 &&& mask42).toNat = d2.toNat % 2 ^ 42 := by
    rw [toNat_mask42, BitVec.toNat_setWidth]
    omega
  have m0 : l0.toNat = d.d0.toNat % 2 ^ 44 + c2.toNat * 5 := by
    rw [hl0, toNat_add, low, n5]
    rw [low, n5]
    omega
  have n3 : (l0 >>> 44).toNat = l0.toNat / 2 ^ 44 := toNat_shiftRight _ _
  have mid : ((d1.setWidth 64 &&& mask44) + (l0 >>> 44)).toNat
      = d1.toNat % 2 ^ 44 + l0.toNat / 2 ^ 44 := by
    rw [← low, ← n3]
    refine toNat_add ?_
    rw [low, n3]
    omega
  rw [hreduce]
  refine ⟨⟨?_, ?_, ?_⟩, c2.toNat, ?_⟩
  · rw [toNat_mask44]
    omega
  · rw [mid]
    omega
  · rw [high]
    omega
  · rw [Limbs.value, toNat_mask44, mid, high, show prime = 2 ^ 130 - 5 from rfl]
    omega

/-- **The loop body is a step of the evaluation.** -/
theorem evaluates {r : Limbs} (hr : r.KeyBounded) :
    Evaluates body Limbs.value Limbs.Bounded r := by
  refine ⟨fun final hm hh => ?_, fun {h m} final hm hh => ?_⟩
  · obtain ⟨b0, b1, b2, -⟩ := value_addBlock final hh hm
    obtain ⟨c0, c1, c2, -⟩ := value_mulKey hr b0 b1 b2
    exact (value_reduce c0 (by omega) c2).1
  · obtain ⟨b0, b1, b2, hadd⟩ := value_addBlock final hh hm
    obtain ⟨c0, c1, c2, k, hmul⟩ := value_mulKey hr b0 b1 b2
    obtain ⟨-, k', hreduce⟩ := value_reduce c0 (by omega) c2
    rw [← hadd, ← hmul, ← hreduce, body]
    refine (Nat.modEq_iff_dvd' (by omega)).mpr ⟨k' + k, ?_⟩
    rw [Nat.mul_add]
    omega

/-! ### The last part -/

/-- Limbs that are the digits of a number below `2 ^ 130`. -/
structure Limbs.Digits (h : Limbs) : Prop where
  h0 : h.h0.toNat < 2 ^ 44
  h1 : h.h1.toNat < 2 ^ 44
  h2 : h.h2.toNat < 2 ^ 42

/-- What is carried around. -/
def carried (h : Limbs) : ℕ := (h.h2.toNat + h.h1.toNat / 2 ^ 44) / 2 ^ 42

theorem toNat_carryAround {h : Limbs} (h0 : h.h0.toNat < 2 ^ 44) (h1 : h.h1.toNat < 2 ^ 45)
    (h2 : h.h2.toNat < 2 ^ 43) :
    (carryAround h).h0.toNat = (h.h0.toNat + carried h * 5) % 2 ^ 44 ∧
      (carryAround h).h1.toNat
        = h.h1.toNat % 2 ^ 44 + (h.h0.toNat + carried h * 5) / 2 ^ 44 ∧
      (carryAround h).h2.toNat = (h.h2.toNat + h.h1.toNat / 2 ^ 44) % 2 ^ 42 := by
  have e2 : (h.h2 + h.h1 >>> 44).toNat = h.h2.toNat + h.h1.toNat / 2 ^ 44 := by
    rw [← toNat_shiftRight]
    refine toNat_add ?_
    rw [toNat_shiftRight]
    omega
  have ec : ((h.h2 + h.h1 >>> 44) >>> 42).toNat = carried h := by
    rw [toNat_shiftRight, e2, carried]
  have hc : carried h ≤ 2 := by
    unfold carried
    omega
  have e5 : ((h.h2 + h.h1 >>> 44) >>> 42 * 5).toNat = carried h * 5 := by
    rw [← ec]
    refine toNat_mul ?_
    rw [ec]
    show carried h * 5 < 2 ^ 64
    omega
  have e0 : (h.h0 + (h.h2 + h.h1 >>> 44) >>> 42 * 5).toNat = h.h0.toNat + carried h * 5 := by
    rw [← e5]
    refine toNat_add ?_
    rw [e5]
    omega
  refine ⟨?_, ?_, ?_⟩
  · rw [← e0]
    exact toNat_mask44 _
  · rw [← e0, ← toNat_mask44, ← toNat_shiftRight]
    refine toNat_add ?_
    rw [toNat_mask44, toNat_shiftRight, e0]
    omega
  · rw [← e2]
    exact toNat_mask42 _

/-- **Carrying twice around** from the bounds of the loop ends with digits. -/
theorem digits_fullCarry {h : Limbs} (hh : h.Bounded) :
    (carryAround (carryAround h)).Digits ∧
      (carryAround (carryAround h)).value ≡ h.value [MOD prime] := by
  obtain ⟨b0, b1, b2⟩ := hh
  obtain ⟨e0, e1, e2⟩ := toNat_carryAround b0 (by omega) (by omega)
  have hc : carried h ≤ 1 := by
    unfold carried
    omega
  obtain ⟨f0, f1, f2⟩ := toNat_carryAround (h := carryAround h) (by omega) (by omega) (by omega)
  -- a carry out of the highest limb leaves the other limbs too small for a second one
  have hc' : carried (carryAround h) = 0 := by
    unfold carried at *
    omega
  rw [hc'] at f0 f1
  have hvalue : (carryAround (carryAround h)).value + prime * carried h = h.value := by
    rw [Limbs.value, Limbs.value, f0, f1, f2, e0, e1, e2, show prime = 2 ^ 130 - 5 from rfl]
    unfold carried at *
    omega
  refine ⟨⟨by omega, ?_, by omega⟩, ?_⟩
  · unfold carried at *
    omega
  · rw [← hvalue]
    exact (Nat.modEq_iff_dvd' (by omega)).mpr ⟨carried h, by omega⟩

/-- The limbs of `h + -p`: the highest one wraps around unless `h` is at least the modulus. -/
theorem toNat_subPrime {h : Limbs} (hh : h.Digits) :
    (subPrime h).h0.toNat = (h.h0.toNat + 5) % 2 ^ 44 ∧
      (subPrime h).h1.toNat = (h.h1.toNat + (h.h0.toNat + 5) / 2 ^ 44) % 2 ^ 44 ∧
      (subPrime h).h2.toNat
        = (h.h2.toNat + (h.h1.toNat + (h.h0.toNat + 5) / 2 ^ 44) / 2 ^ 44 + 2 ^ 64 - 2 ^ 42)
          % 2 ^ 64 := by
  obtain ⟨b0, b1, b2⟩ := hh
  have e0 : (h.h0 + 5).toNat = h.h0.toNat + 5 := toNat_add (by
    show h.h0.toNat + 5 < 2 ^ 64
    omega)
  have e1 : (h.h1 + (h.h0 + 5) >>> 44).toNat = h.h1.toNat + (h.h0.toNat + 5) / 2 ^ 44 := by
    rw [← e0, ← toNat_shiftRight]
    refine toNat_add ?_
    rw [toNat_shiftRight, e0]
    omega
  have e2 : (h.h2 + (h.h1 + (h.h0 + 5) >>> 44) >>> 44).toNat
      = h.h2.toNat + (h.h1.toNat + (h.h0.toNat + 5) / 2 ^ 44) / 2 ^ 44 := by
    rw [← e1, ← toNat_shiftRight]
    refine toNat_add ?_
    rw [toNat_shiftRight, e1]
    omega
  refine ⟨?_, ?_, ?_⟩
  · rw [← e0]
    exact toNat_mask44 _
  · rw [← e1]
    exact toNat_mask44 _
  · rw [← e2]
    have hone : (1#64 <<< 42).toNat = 2 ^ 42 := by decide
    refine (BitVec.toNat_sub _ _).trans ?_
    rw [hone, Nat.add_comm (2 ^ 64 - 2 ^ 42), Nat.add_sub_assoc (by decide)]

/-- **The subtraction of the modulus** leaves the remainder. -/
theorem digits_selectReduced {h : Limbs} (hh : h.Digits) :
    (selectReduced h).Digits ∧ (selectReduced h).value = h.value % prime := by
  obtain ⟨g0, g1, g2⟩ := toNat_subPrime hh
  obtain ⟨b0, b1, b2⟩ := hh
  have hprime : prime = 2 ^ 130 - 5 := rfl
  have hvalue : h.value = h.h0.toNat + 2 ^ 44 * h.h1.toNat + 2 ^ 88 * h.h2.toNat := rfl
  set c := (subPrime h).h2 >>> 63 - 1 with hc
  have hselect : selectReduced h = ⟨(h.h0 &&& ~~~c) ||| ((subPrime h).h0 &&& c),
    (h.h1 &&& ~~~c) ||| ((subPrime h).h1 &&& c), (h.h2 &&& ~~~c) ||| ((subPrime h).h2 &&& c)⟩ := rfl
  have hsign : ((subPrime h).h2 >>> 63).toNat = (subPrime h).h2.toNat / 2 ^ 63 := toNat_shiftRight _ _
  by_cases hlt : h.value < prime
  · -- the highest limb of the difference is negative
    have hone : (subPrime h).h2 >>> 63 = 1 := by
      refine BitVec.eq_of_toNat_eq ?_
      rw [hsign, g2]
      show _ = 1
      omega
    have hc0 : c = 0#64 := by rw [hc, hone]; rfl
    rw [hselect, hc0, select_zero, select_zero, select_zero, Nat.mod_eq_of_lt hlt]
    exact ⟨⟨b0, b1, b2⟩, rfl⟩
  · have hzero : (subPrime h).h2 >>> 63 = 0 := by
      refine BitVec.eq_of_toNat_eq ?_
      rw [hsign, g2]
      show _ = 0
      omega
    have hc1 : c = BitVec.allOnes 64 := by rw [hc, hzero]; rfl
    rw [hselect, hc1, select_allOnes, select_allOnes, select_allOnes]
    refine ⟨⟨by rw [g0]; omega, by rw [g1]; omega, by rw [g2]; omega⟩, ?_⟩
    have hmod : h.value % prime = h.value - prime := by
      rw [Nat.mod_eq_sub_mod (by omega), Nat.mod_eq_of_lt (by omega)]
    rw [hmod, Limbs.value, g0, g1, g2]
    omega

/-- The sum with the pad, in digits. -/
theorem digits_addPad {h : Limbs} (hh : h.Digits) (pad : Pad) :
    (addPad pad h).Digits ∧
      (addPad pad h).value = (h.value + twoWords pad.pad0 pad.pad1) % 2 ^ 130 := by
  obtain ⟨b0, b1, b2⟩ := hh
  set P := twoWords pad.pad0 pad.pad1 with hP
  have hlt : P < 2 ^ 128 := twoWords_lt _ _
  have l0 : (pad.pad0 &&& mask44).toNat = P % 2 ^ 44 := low_limb _ _
  have l1 : ((pad.pad0 >>> 44 ||| pad.pad1 <<< 20) &&& mask44).toNat = P / 2 ^ 44 % 2 ^ 44 :=
    middle_limb _ _
  have l2 : ((pad.pad1 >>> 24) &&& mask42).toNat = P / 2 ^ 88 := high_limb pad.pad0 _
  obtain ⟨m0, hm0⟩ : ∃ m, m = h.h0 + (pad.pad0 &&& mask44) := ⟨_, rfl⟩
  obtain ⟨m1, hm1⟩ : ∃ m, m = h.h1 + ((pad.pad0 >>> 44 ||| pad.pad1 <<< 20) &&& mask44)
    + m0 >>> 44 := ⟨_, rfl⟩
  obtain ⟨m2, hm2⟩ : ∃ m, m = h.h2 + ((pad.pad1 >>> 24) &&& mask42) + m1 >>> 44 := ⟨_, rfl⟩
  have hadd : addPad pad h = ⟨m0 &&& mask44, m1 &&& mask44, m2 &&& mask42⟩ := by
    rw [hm2, hm1, hm0]
    rfl
  have e0 : m0.toNat = h.h0.toNat + P % 2 ^ 44 := by
    rw [hm0, toNat_add (by rw [l0]; omega), l0]
  have c0 : (m0 >>> 44).toNat = m0.toNat / 2 ^ 44 := toNat_shiftRight _ _
  have e1 : m1.toNat = h.h1.toNat + P / 2 ^ 44 % 2 ^ 44 + m0.toNat / 2 ^ 44 := by
    have hsum : (h.h1 + ((pad.pad0 >>> 44 ||| pad.pad1 <<< 20) &&& mask44)).toNat
        = h.h1.toNat + P / 2 ^ 44 % 2 ^ 44 := by
      rw [toNat_add (by rw [l1]; omega), l1]
    rw [hm1, toNat_add (by rw [hsum, c0]; omega), hsum, c0]
  have c1 : (m1 >>> 44).toNat = m1.toNat / 2 ^ 44 := toNat_shiftRight _ _
  have e2 : m2.toNat = h.h2.toNat + P / 2 ^ 88 + m1.toNat / 2 ^ 44 := by
    have hsum : (h.h2 + ((pad.pad1 >>> 24) &&& mask42)).toNat = h.h2.toNat + P / 2 ^ 88 := by
      rw [toNat_add (by rw [l2]; omega), l2]
    rw [hm2, toNat_add (by rw [hsum, c1]; omega), hsum, c1]
  rw [hadd]
  refine ⟨⟨?_, ?_, ?_⟩, ?_⟩
  · rw [toNat_mask44]
    exact Nat.mod_lt _ (by decide)
  · rw [toNat_mask44]
    exact Nat.mod_lt _ (by decide)
  · rw [toNat_mask42]
    exact Nat.mod_lt _ (by decide)
  · rw [Limbs.value, Limbs.value, toNat_mask44, toNat_mask44, toNat_mask42]
    omega

/-- The 16 bytes of digits. -/
theorem mac_eq {h : Limbs} (hh : h.Digits) : mac h = leDigits 16 h.value := by
  obtain ⟨b0, b1, b2⟩ := hh
  have low : (h.h0 ||| h.h1 <<< 44).toNat = h.value % 256 ^ 8 := by
    have hdvd : 2 ^ 44 ∣ h.h1.toNat * 2 ^ 44 % 2 ^ 64 := by omega
    rw [BitVec.toNat_or, toNat_shiftLeft, or_eq_add b0 hdvd, Limbs.value]
    norm_num only
    omega
  have high : (h.h1 >>> 20 ||| h.h2 <<< 24).toNat = h.value / 256 ^ 8 % 256 ^ 8 := by
    have hdvd : 2 ^ 24 ∣ h.h2.toNat * 2 ^ 24 % 2 ^ 64 := by omega
    have hlt : h.h1.toNat / 2 ^ 20 < 2 ^ 24 := by omega
    rw [BitVec.toNat_or, toNat_shiftRight, toNat_shiftLeft, or_eq_add hlt hdvd, Limbs.value]
    norm_num only
    omega
  rw [mac, low, high, leDigits_mod, leDigits_mod, ← leDigits_add]

/-- **The build for 64-bit processors computes Poly1305**: for every key and every message,
`Poly1305::compute` writes the tag. -/
theorem compute_eq_tag {buffer key : Bytes} (hbuffer : buffer.length = 16)
    (hkey : key.length = 32) (data : Bytes) : compute buffer data key = tag key data := by
  have hfresh : Fresh (init buffer key) := ⟨rfl, rfl, hbuffer⟩
  have hzero : (init buffer key).h.Bounded :=
    ⟨Nat.two_pow_pos 44, Nat.succ_pos _, Nat.two_pow_pos 42⟩
  obtain ⟨hbounded, hvalue⟩ :=
    (evaluates (init_keyBounded buffer key)).accumulated hfresh hzero rfl data
  rw [value_init buffer (by omega)] at hvalue
  obtain ⟨hcarried, hcongr⟩ := digits_fullCarry hbounded
  obtain ⟨hreduced, hmod⟩ := digits_selectReduced hcarried
  obtain ⟨hsum, hpad⟩ := digits_addPad hreduced (accumulated body (init buffer key) data).pad
  have hP : twoWords (init buffer key).pad.pad0 (init buffer key).pad.pad1 = pad key :=
    twoWords_u8to64 (by omega)
  rw [compute, finish, mac_eq hsum, hpad, hmod, hcongr, hvalue, accumulated_pad hfresh, hP, tag,
    ← leDigits_mod 16, ← leDigits_mod 16 (evaluate _ _ + _)]
  norm_num only
  rw [Nat.mod_mod_of_dvd _ (by norm_num)]

end Wide

end Poly1305

end ZGalaxy
