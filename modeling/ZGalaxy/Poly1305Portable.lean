/-
ZGalaxy/Poly1305Portable.lean

Poly1305 with products of 64 bits: the build for all other processors.

A number below `2 ^ 130` is kept in five limbs of 26 bits, in words of the type `unsigned long`,
whose width `w` is 32 or 64.  What is folded back around bit 130 is multiplied by `5`.  The bounds
are tight where `w` is 32: five times what is carried out of the highest limb, with the lowest limb
on top, just fits (`value_reduce`).  `poly1305_finish` carries around once, which is enough here, and
adds the pad after the number was packed into words of 32 bits.

Main results: `compute_eq_tag`, for both widths, and `compute_every_build`: all builds write the same
bytes for every key and message.
-/
import ZGalaxy.Poly1305Wide

namespace ZGalaxy

open ByteList Words

namespace Poly1305

namespace Portable

/-! ### The source -/

variable {w : ℕ}

/-- The limbs of a number. -/
structure Limbs (w : ℕ) where
  h0 : BitVec w
  h1 : BitVec w
  h2 : BitVec w
  h3 : BitVec w
  h4 : BitVec w

/-- The words of the pad. -/
structure Pad (w : ℕ) where
  pad0 : BitVec w
  pad1 : BitVec w
  pad2 : BitVec w
  pad3 : BitVec w

/-- `U8TO32`. -/
def u8to32 (p : Bytes) (i : ℕ) : BitVec w := BitVec.ofNat w (leValue (slice p i 4))

/-- `U32TO8`. -/
def u32to8 (v : BitVec w) : Bytes := leDigits 4 v.toNat

/-- The bits of a limb. -/
def mask26 : BitVec w := BitVec.ofNat w 0x3ffffff

/-- The bits that `U32TO8` writes. -/
def mask32 : BitVec w := BitVec.ofNat w 0xffffffff

/-- `poly1305_init`, which leaves the buffer as it is. -/
def init (buffer key : Bytes) : State (Limbs w) (Pad w) :=
  { r := ⟨u8to32 key 0 &&& BitVec.ofNat w 0x3ffffff,
      (u8to32 key 3 >>> 2) &&& BitVec.ofNat w 0x3ffff03,
      (u8to32 key 6 >>> 4) &&& BitVec.ofNat w 0x3ffc0ff,
      (u8to32 key 9 >>> 6) &&& BitVec.ofNat w 0x3f03fff,
      (u8to32 key 12 >>> 8) &&& BitVec.ofNat w 0x00fffff⟩
    h := ⟨0#w, 0#w, 0#w, 0#w, 0#w⟩
    pad := ⟨u8to32 key 16, u8to32 key 20, u8to32 key 24, u8to32 key 28⟩
    leftover := 0
    buffer := buffer
    final := false }

/-- `hibit`. -/
def hibit (final : Bool) : BitVec w := if final then 0#w else BitVec.ofNat w (2 ^ 24)

/-- `h += m[i]`. -/
def addBlock (final : Bool) (h : Limbs w) (m : Bytes) : Limbs w :=
  ⟨h.h0 + (u8to32 m 0 &&& mask26),
    h.h1 + ((u8to32 m 3 >>> 2) &&& mask26),
    h.h2 + ((u8to32 m 6 >>> 4) &&& mask26),
    h.h3 + ((u8to32 m 9 >>> 6) &&& mask26),
    h.h4 + (u8to32 m 12 >>> 8 ||| hibit final)⟩

/-- The product of two words, in `unsigned long long`. -/
def wide (x y : BitVec w) : BitVec 64 := x.setWidth 64 * y.setWidth 64

/-- The sums of products that a multiplication leaves. -/
structure Products where
  d0 : BitVec 64
  d1 : BitVec 64
  d2 : BitVec 64
  d3 : BitVec 64
  d4 : BitVec 64

/-- `h *= r`. -/
def mulKey (r h : Limbs w) : Products :=
  let s1 := r.h1 * 5#w
  let s2 := r.h2 * 5#w
  let s3 := r.h3 * 5#w
  let s4 := r.h4 * 5#w
  ⟨wide h.h0 r.h0 + wide h.h1 s4 + wide h.h2 s3 + wide h.h3 s2 + wide h.h4 s1,
    wide h.h0 r.h1 + wide h.h1 r.h0 + wide h.h2 s4 + wide h.h3 s3 + wide h.h4 s2,
    wide h.h0 r.h2 + wide h.h1 r.h1 + wide h.h2 r.h0 + wide h.h3 s4 + wide h.h4 s3,
    wide h.h0 r.h3 + wide h.h1 r.h2 + wide h.h2 r.h1 + wide h.h3 r.h0 + wide h.h4 s4,
    wide h.h0 r.h4 + wide h.h1 r.h3 + wide h.h2 r.h2 + wide h.h3 r.h1 + wide h.h4 r.h0⟩

/-- `(partial) h %= p`. -/
def reduce (w : ℕ) (d : Products) : Limbs w :=
  let c : BitVec w := (d.d0 >>> 26).setWidth w
  let h0 : BitVec w := d.d0.setWidth w &&& mask26
  let d1 := d.d1 + c.setWidth 64
  let c : BitVec w := (d1 >>> 26).setWidth w
  let h1 : BitVec w := d1.setWidth w &&& mask26
  let d2 := d.d2 + c.setWidth 64
  let c : BitVec w := (d2 >>> 26).setWidth w
  let h2 : BitVec w := d2.setWidth w &&& mask26
  let d3 := d.d3 + c.setWidth 64
  let c : BitVec w := (d3 >>> 26).setWidth w
  let h3 : BitVec w := d3.setWidth w &&& mask26
  let d4 := d.d4 + c.setWidth 64
  let c : BitVec w := (d4 >>> 26).setWidth w
  let h4 : BitVec w := d4.setWidth w &&& mask26
  let h0 := h0 + c * 5#w
  let c := h0 >>> 26
  ⟨h0 &&& mask26, h1 + c, h2, h3, h4⟩

/-- The body of the loop of `poly1305_blocks`. -/
def body (final : Bool) (r h : Limbs w) (m : Bytes) : Limbs w :=
  reduce w (mulKey r (addBlock final h m))

/-- `fully carry h`. -/
def fullCarry (h : Limbs w) : Limbs w :=
  let c := h.h1 >>> 26
  let h1 := h.h1 &&& mask26
  let h2 := h.h2 + c
  let c := h2 >>> 26
  let h2 := h2 &&& mask26
  let h3 := h.h3 + c
  let c := h3 >>> 26
  let h3 := h3 &&& mask26
  let h4 := h.h4 + c
  let c := h4 >>> 26
  let h4 := h4 &&& mask26
  let h0 := h.h0 + c * 5#w
  let c := h0 >>> 26
  ⟨h0 &&& mask26, h1 + c, h2, h3, h4⟩

/-- `compute h + -p`. -/
def subPrime (h : Limbs w) : Limbs w :=
  let g0 := h.h0 + 5#w
  let c := g0 >>> 26
  let g0 := g0 &&& mask26
  let g1 := h.h1 + c
  let c := g1 >>> 26
  let g1 := g1 &&& mask26
  let g2 := h.h2 + c
  let c := g2 >>> 26
  let g2 := g2 &&& mask26
  let g3 := h.h3 + c
  let c := g3 >>> 26
  let g3 := g3 &&& mask26
  ⟨g0, g1, g2, g3, h.h4 + c - BitVec.ofNat w (2 ^ 26)⟩

/-- `select h if h < p, or h + -p if h >= p`. -/
def selectReduced (h : Limbs w) : Limbs w :=
  let g := subPrime h
  let mask := g.h4 >>> (w - 1) - 1#w
  ⟨(h.h0 &&& ~~~mask) ||| (g.h0 &&& mask), (h.h1 &&& ~~~mask) ||| (g.h1 &&& mask),
    (h.h2 &&& ~~~mask) ||| (g.h2 &&& mask), (h.h3 &&& ~~~mask) ||| (g.h3 &&& mask),
    (h.h4 &&& ~~~mask) ||| (g.h4 &&& mask)⟩

/-- `h = h % (2^128)`. -/
def pack (h : Limbs w) : Pad w :=
  ⟨(h.h0 ||| h.h1 <<< 26) &&& mask32, (h.h1 >>> 6 ||| h.h2 <<< 20) &&& mask32,
    (h.h2 >>> 12 ||| h.h3 <<< 14) &&& mask32, (h.h3 >>> 18 ||| h.h4 <<< 8) &&& mask32⟩

/-- `mac = (h + pad) % (2^128)`, with `U32TO8` of the words. -/
def mac (pad h : Pad w) : Bytes :=
  let f0 := h.pad0.setWidth 64 + pad.pad0.setWidth 64
  let f1 := h.pad1.setWidth 64 + pad.pad1.setWidth 64 + f0 >>> 32
  let f2 := h.pad2.setWidth 64 + pad.pad2.setWidth 64 + f1 >>> 32
  let f3 := h.pad3.setWidth 64 + pad.pad3.setWidth 64 + f2 >>> 32
  u32to8 (f0.setWidth w) ++ u32to8 (f1.setWidth w) ++ u32to8 (f2.setWidth w)
    ++ u32to8 (f3.setWidth w)

/-- `poly1305_finish` past the last block. -/
def finish (st : State (Limbs w) (Pad w)) : Bytes :=
  mac st.pad (pack (selectReduced (fullCarry st.h)))

/-- `Poly1305::compute`. -/
def compute (w : ℕ) (buffer data key : Bytes) : Bytes :=
  finish (accumulated body (init (w := w) buffer key) data)

/-! ### Words of either width -/

theorem two_pow_le (hw : 32 ≤ w) : 2 ^ 32 ≤ 2 ^ w := Nat.pow_le_pow_right (by decide) hw

theorem toNat_add32 (hw : 32 ≤ w) {x y : BitVec w} (h : x.toNat + y.toNat < 2 ^ 32) :
    (x + y).toNat = x.toNat + y.toNat :=
  toNat_add (h.trans_le (two_pow_le hw))

theorem toNat_mul5 (hw : 32 ≤ w) {x : BitVec w} (h : x.toNat * 5 < 2 ^ 32) :
    (x * 5#w).toNat = x.toNat * 5 := by
  have h5 : (5#w).toNat = 5 :=
    Nat.mod_eq_of_lt ((by decide : 5 < 2 ^ 32).trans_le (two_pow_le hw))
  rw [toNat_mul (by rw [h5]; exact h.trans_le (two_pow_le hw)), h5]

theorem toNat_mask26 (hw : 32 ≤ w) (x : BitVec w) : (x &&& mask26).toNat = x.toNat % 2 ^ 26 :=
  toNat_and_mask x (n := 26) (by omega)

theorem toNat_mask32 (hw : 32 ≤ w) (x : BitVec w) : (x &&& mask32).toNat = x.toNat % 2 ^ 32 :=
  toNat_and_mask x (n := 32) hw

/-- A constant of at most 32 bits. -/
theorem toNat_ofNat32 (hw : 32 ≤ w) {n : ℕ} (h : n < 2 ^ 32) : (BitVec.ofNat w n).toNat = n :=
  Nat.mod_eq_of_lt (h.trans_le (two_pow_le hw))

theorem toNat_u8to32 (hw : 32 ≤ w) {p : Bytes} {i : ℕ} (h : i + 4 ≤ p.length) :
    (u8to32 p i : BitVec w).toNat = leValue p / 256 ^ i % 2 ^ 32 := by
  rw [u8to32, leValue_slice p h]
  exact toNat_ofNat32 hw (Nat.mod_lt _ (by decide))

/-- The words that a limb is cut from. -/
theorem toNat_limb (hw : 32 ≤ w) {p : Bytes} {i n : ℕ} (h : i + 4 ≤ p.length) :
    (u8to32 p i >>> n : BitVec w).toNat = leValue p / 256 ^ i % 2 ^ 32 / 2 ^ n := by
  rw [toNat_shiftRight, toNat_u8to32 hw h]

/-! ### The key -/

/-- The number that limbs stand for. -/
def Limbs.value (h : Limbs w) : ℕ :=
  h.h0.toNat + 2 ^ 26 * h.h1.toNat + 2 ^ 52 * h.h2.toNat + 2 ^ 78 * h.h3.toNat
    + 2 ^ 104 * h.h4.toNat

/-- What the clamped key is below. -/
structure Limbs.KeyBounded (r : Limbs w) : Prop where
  h0 : r.h0.toNat < 2 ^ 26
  h1 : r.h1.toNat < 2 ^ 26
  h2 : r.h2.toNat < 2 ^ 26
  h3 : r.h3.toNat < 2 ^ 26
  h4 : r.h4.toNat < 2 ^ 20

theorem toNat_and_ofNat (hw : 32 ≤ w) (x : BitVec w) {m : ℕ} (hm : m < 2 ^ 26) :
    (x &&& BitVec.ofNat w m).toNat = x.toNat % 2 ^ 26 &&& m := by
  rw [BitVec.toNat_and, toNat_ofNat32 hw (hm.trans (by decide)), mod_two_pow_and _ hm]

theorem init_keyBounded (hw : 32 ≤ w) (buffer key : Bytes) :
    (init (w := w) buffer key).r.KeyBounded := by
  have hlt : ∀ (x : BitVec w) {m k : ℕ}, m < 2 ^ k → m < 2 ^ 26 →
      (x &&& BitVec.ofNat w m).toNat < 2 ^ k := by
    intro x m k hk hm
    rw [toNat_and_ofNat hw x hm]
    exact Nat.and_lt_two_pow _ hk
  refine ⟨hlt _ ?_ ?_, hlt _ ?_ ?_, hlt _ ?_ ?_, hlt _ ?_ ?_, hlt _ ?_ ?_⟩ <;> decide

/-- **The limbs of the clamped key** are the clamped key. -/
theorem value_init (hw : 32 ≤ w) (buffer : Bytes) {key : Bytes} (h : 16 ≤ key.length) :
    (init (w := w) buffer key).r.value = point key := by
  set T := leValue (slice key 0 16) with hT
  have hlen : (slice key 0 16).length = 16 := length_slice h
  have hlt : T < 2 ^ 128 := by
    have := leValue_lt (slice key 0 16)
    rw [hlen] at this
    exact this.trans_eq (by norm_num)
  -- the words are taken from the key, of which only the first half counts
  have hword : ∀ {i : ℕ}, i + 4 ≤ 16 → (u8to32 key i : BitVec w).toNat = T / 256 ^ i % 2 ^ 32 := by
    intro i hi
    have hslice : slice key i 4 = slice (slice key 0 16) i 4 := by
      rw [slice_slice _ _ _ _ _ hi, Nat.zero_add]
    have := toNat_u8to32 hw (p := slice key 0 16) (i := i) (by omega)
    rwa [u8to32, ← hslice] at this
  have h0 : (init (w := w) buffer key).r.h0.toNat = T % 2 ^ 26 &&& 0x3ffffff := by
    refine (toNat_and_ofNat hw _ (by decide)).trans ?_
    rw [hword (by decide)]
    congr 1
    omega
  have h1 : (init (w := w) buffer key).r.h1.toNat = T / 2 ^ 26 % 2 ^ 26 &&& 0x3ffff03 := by
    refine (toNat_and_ofNat hw _ (by decide)).trans ?_
    rw [toNat_shiftRight, hword (by decide)]
    congr 1
    omega
  have h2 : (init (w := w) buffer key).r.h2.toNat = T / 2 ^ 52 % 2 ^ 26 &&& 0x3ffc0ff := by
    refine (toNat_and_ofNat hw _ (by decide)).trans ?_
    rw [toNat_shiftRight, hword (by decide)]
    congr 1
    omega
  have h3 : (init (w := w) buffer key).r.h3.toNat = T / 2 ^ 78 % 2 ^ 26 &&& 0x3f03fff := by
    refine (toNat_and_ofNat hw _ (by decide)).trans ?_
    rw [toNat_shiftRight, hword (by decide)]
    congr 1
    omega
  have h4 : (init (w := w) buffer key).r.h4.toNat = T / 2 ^ 104 &&& 0x00fffff := by
    refine (toNat_and_ofNat hw _ (by decide)).trans ?_
    rw [toNat_shiftRight, hword (by decide)]
    congr 1
    omega
  -- the key and the mask are cut at the same bits
  have hcut : T = T % 2 ^ 26 + 2 ^ 26 * (T / 2 ^ 26 % 2 ^ 26 + 2 ^ 26 * (T / 2 ^ 52 % 2 ^ 26
      + 2 ^ 26 * (T / 2 ^ 78 % 2 ^ 26 + 2 ^ 26 * (T / 2 ^ 104)))) := by omega
  have hmask : clampMask = 0x3ffffff + 2 ^ 26 * (0x3ffff03 + 2 ^ 26 * (0x3ffc0ff
      + 2 ^ 26 * (0x3f03fff + 2 ^ 26 * 0x00fffff))) := by
    norm_num [clampMask]
  have hmod : ∀ a : ℕ, a % 2 ^ 26 < 2 ^ 26 := fun a => Nat.mod_lt _ (by decide)
  rw [point, ← hT, hmask, Limbs.value, h0, h1, h2, h3, h4]
  conv_rhs => rw [hcut]
  rw [and_add_two_pow_mul _ _ (hmod _) (by decide), and_add_two_pow_mul _ _ (hmod _) (by decide),
    and_add_two_pow_mul _ _ (hmod _) (by decide), and_add_two_pow_mul _ _ (hmod _) (by decide)]
  ring

/-! ### One step of the loop -/

/-- The limbs between two steps. -/
structure Limbs.Bounded (h : Limbs w) : Prop where
  h0 : h.h0.toNat < 2 ^ 26
  h1 : h.h1.toNat < 2 ^ 26 + 2 ^ 6
  h2 : h.h2.toNat < 2 ^ 26
  h3 : h.h3.toNat < 2 ^ 26
  h4 : h.h4.toNat < 2 ^ 26

/-- The limbs when a block was added. -/
structure Limbs.Added (h : Limbs w) : Prop where
  h0 : h.h0.toNat < 2 ^ 27
  h1 : h.h1.toNat < 2 ^ 27 + 2 ^ 6
  h2 : h.h2.toNat < 2 ^ 27
  h3 : h.h3.toNat < 2 ^ 27
  h4 : h.h4.toNat < 2 ^ 26 + 2 ^ 25

/-- The limbs of a block, added. -/
theorem value_addBlock (hw : 32 ≤ w) (final : Bool) {h : Limbs w} (hh : h.Bounded) {m : Bytes}
    (hm : m.length = 16) :
    (addBlock final h m).Added ∧
      (addBlock final h m).value = h.value + (leValue m + if final then 0 else 2 ^ 128) := by
  obtain ⟨b0, b1, b2, b3, b4⟩ := hh
  set T := leValue m with hT
  have hlt : T < 2 ^ 128 := by
    have := leValue_lt m
    rw [hm] at this
    exact this.trans_eq (by norm_num)
  have l0 : (u8to32 m 0 &&& mask26 : BitVec w).toNat = T % 2 ^ 26 := by
    rw [toNat_mask26 hw, toNat_u8to32 hw (by omega)]
    omega
  have l1 : ((u8to32 m 3 >>> 2) &&& mask26 : BitVec w).toNat = T / 2 ^ 26 % 2 ^ 26 := by
    rw [toNat_mask26 hw, toNat_limb hw (by omega)]
    omega
  have l2 : ((u8to32 m 6 >>> 4) &&& mask26 : BitVec w).toNat = T / 2 ^ 52 % 2 ^ 26 := by
    rw [toNat_mask26 hw, toNat_limb hw (by omega)]
    omega
  have l3 : ((u8to32 m 9 >>> 6) &&& mask26 : BitVec w).toNat = T / 2 ^ 78 % 2 ^ 26 := by
    rw [toNat_mask26 hw, toNat_limb hw (by omega)]
    omega
  have l4 : (u8to32 m 12 >>> 8 ||| hibit final : BitVec w).toNat
      = T / 2 ^ 104 + if final then 0 else 2 ^ 24 := by
    have hhigh : (u8to32 m 12 >>> 8 : BitVec w).toNat = T / 2 ^ 104 := by
      rw [toNat_limb hw (by omega)]
      omega
    rw [BitVec.toNat_or, hhigh]
    cases final
    · rw [hibit, if_neg Bool.false_ne_true, if_neg Bool.false_ne_true, toNat_ofNat32 hw (by decide)]
      exact or_eq_add (by omega) (Nat.dvd_refl _)
    · rw [hibit, if_pos rfl, if_pos rfl, BitVec.toNat_zero]
      exact Nat.or_zero _
  have e0 : (addBlock final h m).h0.toNat = h.h0.toNat + T % 2 ^ 26 := by
    rw [← l0]
    exact toNat_add32 hw (by omega)
  have e1 : (addBlock final h m).h1.toNat = h.h1.toNat + T / 2 ^ 26 % 2 ^ 26 := by
    rw [← l1]
    exact toNat_add32 hw (by omega)
  have e2 : (addBlock final h m).h2.toNat = h.h2.toNat + T / 2 ^ 52 % 2 ^ 26 := by
    rw [← l2]
    exact toNat_add32 hw (by omega)
  have e3 : (addBlock final h m).h3.toNat = h.h3.toNat + T / 2 ^ 78 % 2 ^ 26 := by
    rw [← l3]
    exact toNat_add32 hw (by omega)
  have e4 : (addBlock final h m).h4.toNat
      = h.h4.toNat + (T / 2 ^ 104 + if final then 0 else 2 ^ 24) := by
    rw [← l4]
    refine toNat_add32 hw ?_
    rw [l4]
    split_ifs <;> omega
  have hclosed : (if final then 0 else 2 ^ 128) = 2 ^ 104 * if final then 0 else 2 ^ 24 := by
    cases final <;> norm_num
  have hsmall : (if final then 0 else 2 ^ 24) ≤ 2 ^ 24 := by split_ifs <;> norm_num
  rw [Limbs.value, Limbs.value, e0, e1, e2, e3, e4, hclosed]
  generalize (if final then 0 else 2 ^ 24) = b at *
  exact ⟨⟨by omega, by omega, by omega, by omega, by omega⟩, by omega⟩

theorem toNat_setWidth64 (hw : w ≤ 64) (x : BitVec w) : (x.setWidth 64).toNat = x.toNat :=
  BitVec.toNat_setWidth_of_le hw

theorem toNat_wide (hw : w ≤ 64) {x y : BitVec w} {a b : ℕ} (hx : x.toNat ≤ a) (hy : y.toNat ≤ b)
    (h : a * b < 2 ^ 64) :
    (wide x y).toNat = x.toNat * y.toNat ∧ x.toNat * y.toNat ≤ a * b := by
  have hle : x.toNat * y.toNat ≤ a * b := Nat.mul_le_mul hx hy
  refine ⟨?_, hle⟩
  rw [wide, toNat_mul, toNat_setWidth64 hw, toNat_setWidth64 hw]
  rw [toNat_setWidth64 hw, toNat_setWidth64 hw]
  exact hle.trans_lt h

/-- A sum of five products. -/
theorem toNat_sum {a b c d e : BitVec 64}
    (h : a.toNat + b.toNat + c.toNat + d.toNat + e.toNat < 2 ^ 64) :
    (a + b + c + d + e).toNat = a.toNat + b.toNat + c.toNat + d.toNat + e.toNat := by
  have h2 : (a + b).toNat = a.toNat + b.toNat := toNat_add (by omega)
  have h3 : (a + b + c).toNat = a.toNat + b.toNat + c.toNat := by
    rw [toNat_add (by omega), h2]
  have h4 : (a + b + c + d).toNat = a.toNat + b.toNat + c.toNat + d.toNat := by
    rw [toNat_add (by omega), h3]
  rw [toNat_add (by omega), h4]

/-- A sum of five products of words with bounds is exact, and below that of the bounds. -/
theorem toNat_row (hw : w ≤ 64) {x0 x1 x2 x3 x4 y0 y1 y2 y3 y4 : BitVec w}
    {a a1 a4 c0 c1 c2 c3 c4 : ℕ} (h0 : x0.toNat ≤ a) (h1 : x1.toNat ≤ a1) (h2 : x2.toNat ≤ a)
    (h3 : x3.toNat ≤ a) (h4 : x4.toNat ≤ a4) (k0 : y0.toNat ≤ c0) (k1 : y1.toNat ≤ c1)
    (k2 : y2.toNat ≤ c2) (k3 : y3.toNat ≤ c3) (k4 : y4.toNat ≤ c4)
    (h : a * c0 + a1 * c1 + a * c2 + a * c3 + a4 * c4 < 2 ^ 64) :
    (wide x0 y0 + wide x1 y1 + wide x2 y2 + wide x3 y3 + wide x4 y4).toNat
        = x0.toNat * y0.toNat + x1.toNat * y1.toNat + x2.toNat * y2.toNat + x3.toNat * y3.toNat
          + x4.toNat * y4.toNat ∧
      (wide x0 y0 + wide x1 y1 + wide x2 y2 + wide x3 y3 + wide x4 y4).toNat
        ≤ a * c0 + a1 * c1 + a * c2 + a * c3 + a4 * c4 := by
  obtain ⟨e0, f0⟩ := toNat_wide hw h0 k0 (by omega)
  obtain ⟨e1, f1⟩ := toNat_wide hw h1 k1 (by omega)
  obtain ⟨e2, f2⟩ := toNat_wide hw h2 k2 (by omega)
  obtain ⟨e3, f3⟩ := toNat_wide hw h3 k3 (by omega)
  obtain ⟨e4, f4⟩ := toNat_wide hw h4 k4 (by omega)
  have hsum := toNat_sum (a := wide x0 y0) (b := wide x1 y1) (c := wide x2 y2) (d := wide x3 y3)
    (e := wide x4 y4) (by omega)
  rw [e0, e1, e2, e3, e4] at hsum
  exact ⟨hsum, by omega⟩

/-- The number of the sums of products. -/
def Products.value (d : Products) : ℕ :=
  d.d0.toNat + 2 ^ 26 * d.d1.toNat + 2 ^ 52 * d.d2.toNat + 2 ^ 78 * d.d3.toNat
    + 2 ^ 104 * d.d4.toNat

/-- The sums of products are exact, and together they are the product modulo `prime`. -/
theorem value_mulKey (hw : 32 ≤ w) (hw' : w ≤ 64) {r h : Limbs w} (hr : r.KeyBounded)
    (hh : h.Added) :
    let d := mulKey r h
    d.d0.toNat < 15 * 2 ^ 53 ∧ d.d1.toNat < 15 * 2 ^ 53 ∧ d.d2.toNat < 15 * 2 ^ 53 ∧
      d.d3.toNat < 15 * 2 ^ 53 ∧ d.d4.toNat < 2 ^ 55 ∧
      ∃ k, d.value + prime * k = h.value * r.value := by
  obtain ⟨b0, b1, b2, b3, b4⟩ := hr
  obtain ⟨a0, a1, a2, a3, a4⟩ := hh
  have s1 : (r.h1 * 5#w).toNat = r.h1.toNat * 5 := toNat_mul5 hw (by omega)
  have s2 : (r.h2 * 5#w).toNat = r.h2.toNat * 5 := toNat_mul5 hw (by omega)
  have s3 : (r.h3 * 5#w).toNat = r.h3.toNat * 5 := toNat_mul5 hw (by omega)
  have s4 : (r.h4 * 5#w).toNat = r.h4.toNat * 5 := toNat_mul5 hw (by omega)
  have u0 : h.h0.toNat ≤ 2 ^ 27 := by omega
  have u1 : h.h1.toNat ≤ 2 ^ 27 + 2 ^ 6 := by omega
  have u2 : h.h2.toNat ≤ 2 ^ 27 := by omega
  have u3 : h.h3.toNat ≤ 2 ^ 27 := by omega
  have u4 : h.h4.toNat ≤ 2 ^ 26 + 2 ^ 25 := by omega
  have v0 : r.h0.toNat ≤ 2 ^ 26 := by omega
  have v1 : r.h1.toNat ≤ 2 ^ 26 := by omega
  have v2 : r.h2.toNat ≤ 2 ^ 26 := by omega
  have v3 : r.h3.toNat ≤ 2 ^ 26 := by omega
  have v4 : r.h4.toNat ≤ 2 ^ 20 := by omega
  have t1 : (r.h1 * 5#w).toNat ≤ 2 ^ 26 * 5 := by omega
  have t2 : (r.h2 * 5#w).toNat ≤ 2 ^ 26 * 5 := by omega
  have t3 : (r.h3 * 5#w).toNat ≤ 2 ^ 26 * 5 := by omega
  have t4 : (r.h4 * 5#w).toNat ≤ 2 ^ 20 * 5 := by omega
  obtain ⟨d0, l0⟩ := toNat_row hw' u0 u1 u2 u3 u4 v0 t4 t3 t2 t1 (by norm_num)
  obtain ⟨d1, l1⟩ := toNat_row hw' u0 u1 u2 u3 u4 v1 v0 t4 t3 t2 (by norm_num)
  obtain ⟨d2, l2⟩ := toNat_row hw' u0 u1 u2 u3 u4 v2 v1 v0 t4 t3 (by norm_num)
  obtain ⟨d3, l3⟩ := toNat_row hw' u0 u1 u2 u3 u4 v3 v2 v1 v0 t4 (by norm_num)
  obtain ⟨d4, l4⟩ := toNat_row hw' u0 u1 u2 u3 u4 v4 v3 v2 v1 v0 (by norm_num)
  rw [s1, s2, s3, s4] at d0
  rw [s2, s3, s4] at d1
  rw [s3, s4] at d2
  rw [s4] at d3
  refine ⟨l0.trans_lt (by norm_num), l1.trans_lt (by norm_num), l2.trans_lt (by norm_num),
    l3.trans_lt (by norm_num), l4.trans_lt (by norm_num), ?_⟩
  -- what is folded back is the part of the product above bit 130
  refine ⟨h.h1.toNat * r.h4.toNat + h.h2.toNat * r.h3.toNat + h.h3.toNat * r.h2.toNat
    + h.h4.toNat * r.h1.toNat
    + 2 ^ 26 * (h.h2.toNat * r.h4.toNat + h.h3.toNat * r.h3.toNat + h.h4.toNat * r.h2.toNat)
    + 2 ^ 52 * (h.h3.toNat * r.h4.toNat + h.h4.toNat * r.h3.toNat)
    + 2 ^ 78 * (h.h4.toNat * r.h4.toNat), ?_⟩
  rw [Products.value, mulKey]
  dsimp only
  rw [d0, d1, d2, d3, d4, Limbs.value, Limbs.value, show prime = 2 ^ 130 - 5 from rfl]
  norm_num only
  ring

/-- What is carried out of a sum of products. -/
theorem toNat_carry (hw : 32 ≤ w) {d : BitVec 64} (h : d.toNat < 2 ^ 58) :
    ((d >>> 26).setWidth w).toNat = d.toNat / 2 ^ 26 := by
  have := two_pow_le hw
  rw [BitVec.toNat_setWidth, toNat_shiftRight, Nat.mod_eq_of_lt]
  omega

/-- What is carried into the next one. -/
theorem toNat_addCarry (hw : w ≤ 64) {d : BitVec 64} {c : BitVec w}
    (h : d.toNat + c.toNat < 2 ^ 64) : (d + c.setWidth 64).toNat = d.toNat + c.toNat := by
  have hc := toNat_setWidth64 hw c
  rw [toNat_add (by rw [hc]; exact h), hc]

theorem toNat_low (hw : 32 ≤ w) (d : BitVec 64) :
    (d.setWidth w &&& mask26 : BitVec w).toNat = d.toNat % 2 ^ 26 := by
  rw [toNat_mask26 hw, BitVec.toNat_setWidth,
    Nat.mod_mod_of_dvd _ (Nat.pow_dvd_pow 2 (by omega : 26 ≤ w))]

/-- Carrying once around gives limbs within the bounds, and changes the number by a multiple of the
modulus. -/
theorem value_reduce (hw : 32 ≤ w) (hw' : w ≤ 64) {d : Products} (h0 : d.d0.toNat < 15 * 2 ^ 53)
    (h1 : d.d1.toNat < 15 * 2 ^ 53) (h2 : d.d2.toNat < 15 * 2 ^ 53)
    (h3 : d.d3.toNat < 15 * 2 ^ 53) (h4 : d.d4.toNat < 2 ^ 55) :
    (reduce w d).Bounded ∧ ∃ k, (reduce w d).value + prime * k = d.value := by
  obtain ⟨c0, hc0⟩ : ∃ c : BitVec w, c = (d.d0 >>> 26).setWidth w := ⟨_, rfl⟩
  obtain ⟨d1, hd1⟩ : ∃ d1, d1 = d.d1 + c0.setWidth 64 := ⟨_, rfl⟩
  obtain ⟨c1, hc1⟩ : ∃ c : BitVec w, c = (d1 >>> 26).setWidth w := ⟨_, rfl⟩
  obtain ⟨d2, hd2⟩ : ∃ d2, d2 = d.d2 + c1.setWidth 64 := ⟨_, rfl⟩
  obtain ⟨c2, hc2⟩ : ∃ c : BitVec w, c = (d2 >>> 26).setWidth w := ⟨_, rfl⟩
  obtain ⟨d3, hd3⟩ : ∃ d3, d3 = d.d3 + c2.setWidth 64 := ⟨_, rfl⟩
  obtain ⟨c3, hc3⟩ : ∃ c : BitVec w, c = (d3 >>> 26).setWidth w := ⟨_, rfl⟩
  obtain ⟨d4, hd4⟩ : ∃ d4, d4 = d.d4 + c3.setWidth 64 := ⟨_, rfl⟩
  obtain ⟨c4, hc4⟩ : ∃ c : BitVec w, c = (d4 >>> 26).setWidth w := ⟨_, rfl⟩
  obtain ⟨l0, hl0⟩ : ∃ l : BitVec w, l = (d.d0.setWidth w &&& mask26) + c4 * 5#w := ⟨_, rfl⟩
  have hreduce : reduce w d = ⟨l0 &&& mask26, (d1.setWidth w &&& mask26) + (l0 >>> 26),
      d2.setWidth w &&& mask26, d3.setWidth w &&& mask26, d4.setWidth w &&& mask26⟩ := by
    rw [hl0, hc4, hd4, hc3, hd3, hc2, hd2, hc1, hd1, hc0]
    rfl
  have n0 : c0.toNat = d.d0.toNat / 2 ^ 26 := hc0 ▸ toNat_carry hw (by omega)
  have m1 : d1.toNat = d.d1.toNat + c0.toNat := hd1 ▸ toNat_addCarry hw' (by omega)
  have n1 : c1.toNat = d1.toNat / 2 ^ 26 := hc1 ▸ toNat_carry hw (by omega)
  have m2 : d2.toNat = d.d2.toNat + c1.toNat := hd2 ▸ toNat_addCarry hw' (by omega)
  have n2 : c2.toNat = d2.toNat / 2 ^ 26 := hc2 ▸ toNat_carry hw (by omega)
  have m3 : d3.toNat = d.d3.toNat + c2.toNat := hd3 ▸ toNat_addCarry hw' (by omega)
  have n3 : c3.toNat = d3.toNat / 2 ^ 26 := hc3 ▸ toNat_carry hw (by omega)
  have m4 : d4.toNat = d.d4.toNat + c3.toNat := hd4 ▸ toNat_addCarry hw' (by omega)
  have n4 : c4.toNat = d4.toNat / 2 ^ 26 := hc4 ▸ toNat_carry hw (by omega)
  -- five times the last carry just fits into a word of 32 bits
  have n5 : (c4 * 5#w).toNat = c4.toNat * 5 := toNat_mul5 hw (by omega)
  have m0 : l0.toNat = d.d0.toNat % 2 ^ 26 + c4.toNat * 5 := by
    rw [hl0, ← toNat_low hw, ← n5]
    refine toNat_add32 hw ?_
    rw [toNat_low hw, n5]
    omega
  have mid : ((d1.setWidth w &&& mask26) + (l0 >>> 26) : BitVec w).toNat
      = d1.toNat % 2 ^ 26 + l0.toNat / 2 ^ 26 := by
    rw [← toNat_low hw, ← toNat_shiftRight]
    refine toNat_add32 hw ?_
    rw [toNat_low hw, toNat_shiftRight]
    omega
  rw [hreduce]
  refine ⟨⟨?_, ?_, ?_, ?_, ?_⟩, c4.toNat, ?_⟩
  · rw [toNat_mask26 hw]
    exact Nat.mod_lt _ (by decide)
  · rw [mid]
    omega
  · rw [toNat_low hw]
    exact Nat.mod_lt _ (by decide)
  · rw [toNat_low hw]
    exact Nat.mod_lt _ (by decide)
  · rw [toNat_low hw]
    exact Nat.mod_lt _ (by decide)
  · rw [Limbs.value, toNat_mask26 hw, mid, toNat_low hw, toNat_low hw, toNat_low hw,
      Products.value, show prime = 2 ^ 130 - 5 from rfl]
    omega

/-- **The loop body is a step of the evaluation.** -/
theorem evaluates (hw : 32 ≤ w) (hw' : w ≤ 64) {r : Limbs w} (hr : r.KeyBounded) :
    Evaluates body Limbs.value Limbs.Bounded r := by
  refine ⟨fun final hm hh => ?_, fun {h m} final hm hh => ?_⟩
  · obtain ⟨hadded, -⟩ := value_addBlock hw final hh hm
    obtain ⟨c0, c1, c2, c3, c4, -⟩ := value_mulKey hw hw' hr hadded
    exact (value_reduce hw hw' c0 c1 c2 c3 c4).1
  · obtain ⟨hadded, hadd⟩ := value_addBlock hw final hh hm
    obtain ⟨c0, c1, c2, c3, c4, k, hmul⟩ := value_mulKey hw hw' hr hadded
    obtain ⟨-, k', hreduce⟩ := value_reduce hw hw' c0 c1 c2 c3 c4
    rw [← hadd, ← hmul, ← hreduce, body]
    refine (Nat.modEq_iff_dvd' (by omega)).mpr ⟨k' + k, ?_⟩
    rw [Nat.mul_add]
    omega

/-! ### The last part -/

/-- Limbs that are the digits of a number below `2 ^ 130`. -/
structure Limbs.Digits (h : Limbs w) : Prop where
  h0 : h.h0.toNat < 2 ^ 26
  h1 : h.h1.toNat < 2 ^ 26
  h2 : h.h2.toNat < 2 ^ 26
  h3 : h.h3.toNat < 2 ^ 26
  h4 : h.h4.toNat < 2 ^ 26

/-- A limb with what is carried into it. -/
theorem toNat_carryInto (hw : 32 ≤ w) {x y : BitVec w} (hx : x.toNat < 2 ^ 26)
    (hy : y.toNat < 2 ^ 27) : (x + y >>> 26).toNat = x.toNat + y.toNat / 2 ^ 26 := by
  rw [← toNat_shiftRight]
  refine toNat_add32 hw ?_
  rw [toNat_shiftRight]
  omega

/-- **Carrying once around** from the bounds of the loop ends with digits. -/
theorem digits_fullCarry (hw : 32 ≤ w) {h : Limbs w} (hh : h.Bounded) :
    (fullCarry h).Digits ∧ (fullCarry h).value ≡ h.value [MOD prime] := by
  obtain ⟨b0, b1, b2, b3, b4⟩ := hh
  obtain ⟨h2, hh2⟩ : ∃ x, x = h.h2 + h.h1 >>> 26 := ⟨_, rfl⟩
  obtain ⟨h3, hh3⟩ : ∃ x, x = h.h3 + h2 >>> 26 := ⟨_, rfl⟩
  obtain ⟨h4, hh4⟩ : ∃ x, x = h.h4 + h3 >>> 26 := ⟨_, rfl⟩
  obtain ⟨h0, hh0⟩ : ∃ x, x = h.h0 + h4 >>> 26 * 5#w := ⟨_, rfl⟩
  have hcarry : fullCarry h = ⟨h0 &&& mask26, (h.h1 &&& mask26) + h0 >>> 26, h2 &&& mask26,
      h3 &&& mask26, h4 &&& mask26⟩ := by
    rw [hh0, hh4, hh3, hh2]
    rfl
  have e2 : h2.toNat = h.h2.toNat + h.h1.toNat / 2 ^ 26 :=
    hh2 ▸ toNat_carryInto hw b2 (by omega)
  have e3 : h3.toNat = h.h3.toNat + h2.toNat / 2 ^ 26 := hh3 ▸ toNat_carryInto hw b3 (by omega)
  have e4 : h4.toNat = h.h4.toNat + h3.toNat / 2 ^ 26 := hh4 ▸ toNat_carryInto hw b4 (by omega)
  have c4 : (h4 >>> 26).toNat = h4.toNat / 2 ^ 26 := toNat_shiftRight _ _
  have c5 : (h4 >>> 26 * 5#w).toNat = h4.toNat / 2 ^ 26 * 5 := by
    rw [toNat_mul5 hw (by omega), c4]
  have e0 : h0.toNat = h.h0.toNat + h4.toNat / 2 ^ 26 * 5 := by
    rw [hh0, toNat_add32 hw (by omega), c5]
  have low := toNat_mask26 hw h.h1
  have e1 : ((h.h1 &&& mask26) + h0 >>> 26).toNat = h.h1.toNat % 2 ^ 26 + h0.toNat / 2 ^ 26 := by
    rw [toNat_carryInto hw (by omega) (by omega), low]
  rw [hcarry]
  refine ⟨⟨?_, ?_, ?_, ?_, ?_⟩, ?_⟩
  · rw [toNat_mask26 hw]
    exact Nat.mod_lt _ (by decide)
  · -- a carry into this limb has come all the way around from it
    rw [e1]
    omega
  · rw [toNat_mask26 hw]
    exact Nat.mod_lt _ (by decide)
  · rw [toNat_mask26 hw]
    exact Nat.mod_lt _ (by decide)
  · rw [toNat_mask26 hw]
    exact Nat.mod_lt _ (by decide)
  · have hvalue : h0.toNat % 2 ^ 26 + 2 ^ 26 * (h.h1.toNat % 2 ^ 26 + h0.toNat / 2 ^ 26)
        + 2 ^ 52 * (h2.toNat % 2 ^ 26) + 2 ^ 78 * (h3.toNat % 2 ^ 26)
        + 2 ^ 104 * (h4.toNat % 2 ^ 26) + prime * (h4.toNat / 2 ^ 26) = h.value := by
      rw [Limbs.value, show prime = 2 ^ 130 - 5 from rfl]
      omega
    rw [← hvalue, Limbs.value, toNat_mask26 hw, e1, toNat_mask26 hw, toNat_mask26 hw,
      toNat_mask26 hw]
    exact (Nat.modEq_iff_dvd' (by omega)).mpr ⟨h4.toNat / 2 ^ 26, by omega⟩

/-- The limbs of `h + -p`: the highest one wraps around unless `h` is at least the modulus. -/
theorem toNat_subPrime (hw : 32 ≤ w) {h : Limbs w} (hh : h.Digits) :
    ∃ c1 c2 c3 c4 : ℕ, c1 = (h.h0.toNat + 5) / 2 ^ 26 ∧ c2 = (h.h1.toNat + c1) / 2 ^ 26 ∧
      c3 = (h.h2.toNat + c2) / 2 ^ 26 ∧ c4 = (h.h3.toNat + c3) / 2 ^ 26 ∧
      (subPrime h).h0.toNat = (h.h0.toNat + 5) % 2 ^ 26 ∧
      (subPrime h).h1.toNat = (h.h1.toNat + c1) % 2 ^ 26 ∧
      (subPrime h).h2.toNat = (h.h2.toNat + c2) % 2 ^ 26 ∧
      (subPrime h).h3.toNat = (h.h3.toNat + c3) % 2 ^ 26 ∧
      (subPrime h).h4.toNat = (h.h4.toNat + c4 + (2 ^ w - 2 ^ 26)) % 2 ^ w := by
  obtain ⟨b0, b1, b2, b3, b4⟩ := hh
  obtain ⟨g0, hg0⟩ : ∃ x, x = h.h0 + 5#w := ⟨_, rfl⟩
  obtain ⟨g1, hg1⟩ : ∃ x, x = h.h1 + g0 >>> 26 := ⟨_, rfl⟩
  obtain ⟨g2, hg2⟩ : ∃ x, x = h.h2 + g1 >>> 26 := ⟨_, rfl⟩
  obtain ⟨g3, hg3⟩ : ∃ x, x = h.h3 + g2 >>> 26 := ⟨_, rfl⟩
  have hsub : subPrime h = ⟨g0 &&& mask26, g1 &&& mask26, g2 &&& mask26, g3 &&& mask26,
      h.h4 + g3 >>> 26 - BitVec.ofNat w (2 ^ 26)⟩ := by
    rw [hg3, hg2, hg1, hg0]
    rfl
  have h5 : (5#w).toNat = 5 := toNat_ofNat32 hw (by decide)
  have e0 : g0.toNat = h.h0.toNat + 5 := by rw [hg0, toNat_add32 hw (by omega), h5]
  have e1 : g1.toNat = h.h1.toNat + g0.toNat / 2 ^ 26 := hg1 ▸ toNat_carryInto hw b1 (by omega)
  have e2 : g2.toNat = h.h2.toNat + g1.toNat / 2 ^ 26 := hg2 ▸ toNat_carryInto hw b2 (by omega)
  have e3 : g3.toNat = h.h3.toNat + g2.toNat / 2 ^ 26 := hg3 ▸ toNat_carryInto hw b3 (by omega)
  have e4 : (h.h4 + g3 >>> 26).toNat = h.h4.toNat + g3.toNat / 2 ^ 26 :=
    toNat_carryInto hw b4 (by omega)
  refine ⟨g0.toNat / 2 ^ 26, g1.toNat / 2 ^ 26, g2.toNat / 2 ^ 26, g3.toNat / 2 ^ 26,
    by rw [e0], by rw [e1], by rw [e2], by rw [e3], ?_, ?_, ?_, ?_, ?_⟩
  · rw [hsub, toNat_mask26 hw, e0]
  · rw [hsub, toNat_mask26 hw, e1]
  · rw [hsub, toNat_mask26 hw, e2]
  · rw [hsub, toNat_mask26 hw, e3]
  · rw [hsub]
    refine (BitVec.toNat_sub _ _).trans ?_
    rw [toNat_ofNat32 hw (by decide), e4, Nat.add_comm (2 ^ w - 2 ^ 26)]

/-- **The subtraction of the modulus** leaves the remainder. -/
theorem digits_selectReduced (hw : 32 ≤ w) {h : Limbs w} (hh : h.Digits) :
    (selectReduced h).Digits ∧ (selectReduced h).value = h.value % prime := by
  obtain ⟨c1, c2, c3, c4, e1, e2, e3, e4, g0, g1, g2, g3, g4⟩ := toNat_subPrime hw hh
  obtain ⟨b0, b1, b2, b3, b4⟩ := hh
  have hprime : prime = 2 ^ 130 - 5 := rfl
  have hvalue : h.value = h.h0.toNat + 2 ^ 26 * h.h1.toNat + 2 ^ 52 * h.h2.toNat
    + 2 ^ 78 * h.h3.toNat + 2 ^ 104 * h.h4.toNat := rfl
  -- the sign bit of a word of either width
  have htwo : 2 ^ w = 2 * 2 ^ (w - 1) := by
    rw [← Nat.pow_succ']
    congr 1
    omega
  have hbig : 2 ^ 31 ≤ 2 ^ (w - 1) := Nat.pow_le_pow_right (by decide) (by omega)
  set c := (subPrime h).h4 >>> (w - 1) - 1#w with hc
  have hselect : selectReduced h = ⟨(h.h0 &&& ~~~c) ||| ((subPrime h).h0 &&& c),
    (h.h1 &&& ~~~c) ||| ((subPrime h).h1 &&& c), (h.h2 &&& ~~~c) ||| ((subPrime h).h2 &&& c),
    (h.h3 &&& ~~~c) ||| ((subPrime h).h3 &&& c),
    (h.h4 &&& ~~~c) ||| ((subPrime h).h4 &&& c)⟩ := rfl
  have hsign : ((subPrime h).h4 >>> (w - 1)).toNat = (subPrime h).h4.toNat / 2 ^ (w - 1) :=
    toNat_shiftRight _ _
  by_cases hlt : h.value < prime
  · -- the highest limb of the difference is negative
    have hsmall : h.h4.toNat + c4 < 2 ^ 26 := by omega
    have hone : (subPrime h).h4 >>> (w - 1) = 1#w := by
      refine BitVec.eq_of_toNat_eq ?_
      rw [hsign, g4, Nat.mod_eq_of_lt (by omega), toNat_ofNat32 hw (by decide)]
      exact Nat.div_eq_of_lt_le (by omega) (by omega)
    have hc0 : c = 0#w := by rw [hc, hone, BitVec.sub_self]
    rw [hselect, hc0, select_zero, select_zero, select_zero, select_zero, select_zero,
      Nat.mod_eq_of_lt hlt]
    exact ⟨⟨b0, b1, b2, b3, b4⟩, rfl⟩
  · have hfull : h.h4.toNat + c4 = 2 ^ 26 := by omega
    have hfour : (subPrime h).h4.toNat = 0 := by
      rw [g4, hfull, Nat.add_sub_cancel' (by omega), Nat.mod_self]
    have hzero : (subPrime h).h4 >>> (w - 1) = 0#w := by
      refine BitVec.eq_of_toNat_eq ?_
      rw [hsign, hfour, Nat.zero_div, BitVec.toNat_zero]
    have hc1 : c = BitVec.allOnes w := by
      rw [hc, hzero, BitVec.zero_sub, BitVec.neg_one_eq_allOnes]
    rw [hselect, hc1, select_allOnes, select_allOnes, select_allOnes, select_allOnes,
      select_allOnes]
    refine ⟨⟨by rw [g0]; omega, by rw [g1]; omega, by rw [g2]; omega, by rw [g3]; omega,
      by rw [hfour]; omega⟩, ?_⟩
    have hmod : h.value % prime = h.value - prime := by
      rw [Nat.mod_eq_sub_mod (by omega), Nat.mod_eq_of_lt (by omega)]
    rw [hmod, Limbs.value, g0, g1, g2, g3, hfour]
    omega

/-- The number of four words of 32 bits. -/
def Pad.value (p : Pad w) : ℕ :=
  p.pad0.toNat + 2 ^ 32 * p.pad1.toNat + 2 ^ 64 * p.pad2.toNat + 2 ^ 96 * p.pad3.toNat

/-- Words of 32 bits. -/
structure Pad.Small (p : Pad w) : Prop where
  pad0 : p.pad0.toNat < 2 ^ 32
  pad1 : p.pad1.toNat < 2 ^ 32
  pad2 : p.pad2.toNat < 2 ^ 32
  pad3 : p.pad3.toNat < 2 ^ 32

/-- Two limbs that meet in a word. -/
theorem toNat_join (hw : 32 ≤ w) {x y : BitVec w} {k j : ℕ} (hx : x.toNat < 2 ^ (k + j))
    (hj : j ≤ w) :
    ((x >>> k ||| y <<< j) &&& mask32).toNat = (x.toNat / 2 ^ k + y.toNat * 2 ^ j) % 2 ^ 32 := by
  have hlow : x.toNat / 2 ^ k < 2 ^ j := by
    rwa [Nat.div_lt_iff_lt_mul (Nat.two_pow_pos k), ← Nat.pow_add, Nat.add_comm]
  have hdvd : 2 ^ j ∣ y.toNat * 2 ^ j % 2 ^ w :=
    (Nat.dvd_mod_iff (Nat.pow_dvd_pow 2 hj)).mpr (Nat.dvd_mul_left _ _)
  rw [toNat_mask32 hw, BitVec.toNat_or, toNat_shiftRight, toNat_shiftLeft, or_eq_add hlow hdvd,
    Nat.add_mod, Nat.mod_mod_of_dvd _ (Nat.pow_dvd_pow 2 hw), ← Nat.add_mod]

/-- The words of digits: what is above bit 128 is dropped. -/
theorem value_pack (hw : 32 ≤ w) {h : Limbs w} (hh : h.Digits) :
    (pack h).Small ∧ (pack h).value = h.value % 2 ^ 128 := by
  obtain ⟨b0, b1, b2, b3, b4⟩ := hh
  have e0 : (pack h).pad0.toNat = (h.h0.toNat + h.h1.toNat * 2 ^ 26) % 2 ^ 32 := by
    have := toNat_join hw (x := h.h0) (y := h.h1) (k := 0) (j := 26) b0 (by omega)
    rwa [Nat.pow_zero, Nat.div_one, BitVec.ushiftRight_zero] at this
  have e1 : (pack h).pad1.toNat = (h.h1.toNat / 2 ^ 6 + h.h2.toNat * 2 ^ 20) % 2 ^ 32 :=
    toNat_join hw b1 (by omega)
  have e2 : (pack h).pad2.toNat = (h.h2.toNat / 2 ^ 12 + h.h3.toNat * 2 ^ 14) % 2 ^ 32 :=
    toNat_join hw b2 (by omega)
  have e3 : (pack h).pad3.toNat = (h.h3.toNat / 2 ^ 18 + h.h4.toNat * 2 ^ 8) % 2 ^ 32 :=
    toNat_join hw b3 (by omega)
  refine ⟨⟨by rw [e0]; omega, by rw [e1]; omega, by rw [e2]; omega, by rw [e3]; omega⟩, ?_⟩
  rw [Pad.value, Limbs.value, e0, e1, e2, e3]
  omega

/-- A word is written with its low 32 bits. -/
theorem u32to8_setWidth (hw : 32 ≤ w) (f : BitVec 64) :
    u32to8 (f.setWidth w) = leDigits 4 f.toNat := by
  rw [u32to8, BitVec.toNat_setWidth, ← leDigits_mod, ← leDigits_mod 4 f.toNat]
  norm_num only
  rw [Nat.mod_mod_of_dvd _ ((by norm_num : 4294967296 = 2 ^ 32) ▸ Nat.pow_dvd_pow 2 hw)]

/-- The sum with the pad, written out. -/
theorem mac_eq (hw : 32 ≤ w) (hw' : w ≤ 64) {pad h : Pad w} (hp : pad.Small) (hh : h.Small) :
    mac pad h = leDigits 16 (h.value + pad.value) := by
  obtain ⟨p0, p1, p2, p3⟩ := hp
  obtain ⟨b0, b1, b2, b3⟩ := hh
  have sum {x y : BitVec w} (hx : x.toNat < 2 ^ 32) (hy : y.toNat < 2 ^ 32) :
      (x.setWidth 64 + y.setWidth 64).toNat = x.toNat + y.toNat := by
    have ex := toNat_setWidth64 hw' x
    have ey := toNat_setWidth64 hw' y
    rw [toNat_add (by omega), ex, ey]
  have carry {x y : BitVec w} (hx : x.toNat < 2 ^ 32) (hy : y.toNat < 2 ^ 32) {f : BitVec 64}
      (hf : f.toNat < 2 ^ 34) : (x.setWidth 64 + y.setWidth 64 + f >>> 32).toNat
        = x.toNat + y.toNat + f.toNat / 2 ^ 32 := by
    have hs := sum hx hy
    have hc := toNat_shiftRight f 32
    rw [toNat_add (by omega), hs, hc]
  obtain ⟨f0, hf0⟩ : ∃ f, f = h.pad0.setWidth 64 + pad.pad0.setWidth 64 := ⟨_, rfl⟩
  obtain ⟨f1, hf1⟩ : ∃ f, f = h.pad1.setWidth 64 + pad.pad1.setWidth 64 + f0 >>> 32 := ⟨_, rfl⟩
  obtain ⟨f2, hf2⟩ : ∃ f, f = h.pad2.setWidth 64 + pad.pad2.setWidth 64 + f1 >>> 32 := ⟨_, rfl⟩
  obtain ⟨f3, hf3⟩ : ∃ f, f = h.pad3.setWidth 64 + pad.pad3.setWidth 64 + f2 >>> 32 := ⟨_, rfl⟩
  have hmac : mac pad h = u32to8 (f0.setWidth w) ++ u32to8 (f1.setWidth w)
      ++ u32to8 (f2.setWidth w) ++ u32to8 (f3.setWidth w) := by
    rw [hf3, hf2, hf1, hf0]
    rfl
  have e0 : f0.toNat = h.pad0.toNat + pad.pad0.toNat := hf0 ▸ sum b0 p0
  have e1 : f1.toNat = h.pad1.toNat + pad.pad1.toNat + f0.toNat / 2 ^ 32 :=
    hf1 ▸ carry b1 p1 (by omega)
  have e2 : f2.toNat = h.pad2.toNat + pad.pad2.toNat + f1.toNat / 2 ^ 32 :=
    hf2 ▸ carry b2 p2 (by omega)
  have e3 : f3.toNat = h.pad3.toNat + pad.pad3.toNat + f2.toNat / 2 ^ 32 :=
    hf3 ▸ carry b3 p3 (by omega)
  have hvalue : h.value + pad.value = f0.toNat % 256 ^ 4 + 256 ^ 4 * (f1.toNat % 256 ^ 4
      + 256 ^ 4 * (f2.toNat % 256 ^ 4 + 256 ^ 4 * f3.toNat)) := by
    rw [Pad.value, Pad.value]
    norm_num only
    omega
  rw [hmac, hvalue, u32to8_setWidth hw, u32to8_setWidth hw, u32to8_setWidth hw,
    u32to8_setWidth hw, leDigits_mod_add 4 12, leDigits_mod_add 4 8, leDigits_mod_add 4 4,
    List.append_assoc, List.append_assoc]

/-- **The portable build computes Poly1305**, whichever of its two widths `unsigned long` has: for
every key and every message, `Poly1305::compute` writes the tag. -/
theorem compute_eq_tag (hw : w = 32 ∨ w = 64) {buffer key : Bytes} (hbuffer : buffer.length = 16)
    (hkey : key.length = 32) (data : Bytes) : compute w buffer data key = tag key data := by
  have hmin : 32 ≤ w := by omega
  have hmax : w ≤ 64 := by omega
  have hfresh : Fresh (init (w := w) buffer key) := ⟨rfl, rfl, hbuffer⟩
  have hzero : (init (w := w) buffer key).h.Bounded := by
    refine ⟨?_, ?_, ?_, ?_, ?_⟩ <;> exact BitVec.toNat_zero.trans_lt (by norm_num)
  have hnone : (init (w := w) buffer key).h.value = 0 := by
    simp [Limbs.value, init]
  obtain ⟨hbounded, hvalue⟩ :=
    (evaluates hmin hmax (init_keyBounded hmin buffer key)).accumulated hfresh hzero hnone data
  rw [value_init hmin buffer (by omega)] at hvalue
  obtain ⟨hcarried, hcongr⟩ := digits_fullCarry hmin hbounded
  obtain ⟨hreduced, hmod⟩ := digits_selectReduced hmin hcarried
  obtain ⟨hsmall, hpack⟩ := value_pack hmin hreduced
  have hword {i : ℕ} (hi : i + 4 ≤ 32) :
      (u8to32 key i : BitVec w).toNat = leValue (slice key i 4) := by
    rw [toNat_u8to32 hmin (by omega), leValue_slice _ (by omega)]
    norm_num only
  have hpad : (init (w := w) buffer key).pad.value = pad key := by
    have hsplit : slice key 16 16
        = slice key 16 4 ++ (slice key 20 4 ++ (slice key 24 4 ++ slice key 28 4)) := by
      rw [slice_append_slice, slice_append_slice, slice_append_slice]
    have hlen {i : ℕ} (hi : i + 4 ≤ 32) : (slice key i 4).length = 4 := length_slice (by omega)
    rw [pad, hsplit, leValue_append, leValue_append, leValue_append, hlen (by decide),
      hlen (by decide), hlen (by decide), Pad.value]
    show (u8to32 key 16 : BitVec w).toNat + 2 ^ 32 * (u8to32 key 20 : BitVec w).toNat
      + 2 ^ 64 * (u8to32 key 24 : BitVec w).toNat + 2 ^ 96 * (u8to32 key 28 : BitVec w).toNat = _
    rw [hword (by decide), hword (by decide), hword (by decide), hword (by decide)]
    norm_num only
    ring
  have hpadSmall : (init (w := w) buffer key).pad.Small := by
    have hlt {i : ℕ} (hi : i + 4 ≤ 32) : (u8to32 key i : BitVec w).toNat < 2 ^ 32 := by
      rw [toNat_u8to32 hmin (by omega)]
      exact Nat.mod_lt _ (by decide)
    exact ⟨hlt (by decide), hlt (by decide), hlt (by decide), hlt (by decide)⟩
  rw [compute, finish, accumulated_pad hfresh, mac_eq hmin hmax hpadSmall hsmall, hpack, hmod,
    hcongr, hvalue, hpad, tag, ← leDigits_mod 16, ← leDigits_mod 16 (evaluate _ _ + _)]
  norm_num only
  rw [Nat.mod_add_mod]

end Portable

/-- **Every build of `Poly1305::compute` computes Poly1305**: the one with products of 128 bits and
the portable one with either width of `unsigned long` write the tag, for every key and message and
whatever the buffer held before. -/
theorem compute_every_build {buffer key : Bytes} (hbuffer : buffer.length = 16)
    (hkey : key.length = 32) (data : Bytes) :
    Wide.compute buffer data key = tag key data ∧
      ∀ w, w = 32 ∨ w = 64 → Portable.compute w buffer data key = tag key data :=
  ⟨Wide.compute_eq_tag hbuffer hkey data,
    fun _ hw => Portable.compute_eq_tag hw hbuffer hkey data⟩

/-- A message whose last block is short, under a key with bits that clamping clears. -/
theorem compute_every_build_short :
    let buffer : Bytes := List.replicate 16 9
    let key : Bytes := (List.range 32).map fun i => UInt8.ofNat (251 - 7 * i)
    let data : Bytes := (List.range 37).map fun i => UInt8.ofNat (i * i)
    Wide.compute buffer data key = Portable.compute 32 buffer data key ∧
      Portable.compute 64 buffer data key = tag key data := by
  intro buffer key data
  have hkey : key.length = 32 := by decide
  have h := compute_every_build (show buffer.length = 16 from rfl) hkey data
  exact ⟨h.1.trans (h.2 32 (.inl rfl)).symm, h.2 64 (.inr rfl)⟩

end Poly1305

end ZGalaxy
