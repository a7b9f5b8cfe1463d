/-
ZGalaxy/Gmac.lean

The software implementation of GMAC.

`s_bmul32` multiplies two words of 32 bits without carries by sixteen integer products of words that
keep every fourth bit only (`poly_bmul32`).  `s_gfmul` multiplies two blocks with nine of these, in two
levels of Karatsuba's scheme, shifts the product by one place, and reduces it from the last word to
the first (`gfmul_eq`): it is the product of the standard.

The bytes are fed in pieces of any length; those that do not fill a block are kept back in `_r`
(`Fed`).

Main results: `gfmul_eq`, and `gmac_pieces`, the tag is that of the standard, however the input was cut
into pieces.
-/
import ZGalaxy.Aes
import ZGalaxy.Blocks
import ZGalaxy.Ghash

open Polynomial

namespace ZGalaxy

open ByteList

namespace Gmac

/-! ### Products -/

/-- `s_bmul32`, its two halves in one word. -/
def bmul32 (x y : BitVec 32) : BitVec 64 :=
  let x0t := x &&& 0x11111111#32
  let x1t := x &&& 0x22222222#32
  let x2t := x &&& 0x44444444#32
  let x3t := x &&& 0x88888888#32
  let y0t := y &&& 0x11111111#32
  let y1t := y &&& 0x22222222#32
  let y2t := y &&& 0x44444444#32
  let y3t := y &&& 0x88888888#32
  let m (a b : BitVec 32) : BitVec 64 := a.setWidth 64 * b.setWidth 64
  let z0t := (m x0t y0t ^^^ m x1t y3t ^^^ m x2t y2t ^^^ m x3t y1t) &&& 0x1111111111111111#64
  let z1t := (m x0t y1t ^^^ m x1t y0t ^^^ m x2t y3t ^^^ m x3t y2t) &&& 0x2222222222222222#64
  let z2t := (m x0t y2t ^^^ m x1t y1t ^^^ m x2t y0t ^^^ m x3t y3t) &&& 0x4444444444444444#64
  let z0t := z0t ||| z1t
  let z2t := z2t ||| z0t
  z2t ||| ((m x0t y3t ^^^ m x1t y2t ^^^ m x2t y1t ^^^ m x3t y0t) &&& 0x8888888888888888#64)

/-- `(uint32_t)(x >> 32U)`. -/
def high (x : BitVec 64) : BitVec 32 := (x >>> 32).setWidth 32

/-- `(uint32_t)x`. -/
def low (x : BitVec 64) : BitVec 32 := x.setWidth 32

/-- `((uint64_t)a << 32U) | b`. -/
def join (a b : BitVec 32) : BitVec 64 := a.setWidth 64 <<< 32 ||| b.setWidth 64

/-- A product of two times two words in `s_gfmul`: three times `s_bmul32`, of which the third makes up
the two words in the middle. -/
def karatsuba (xh xl yh yl : BitVec 32) : BitVec 32 × BitVec 32 × BitVec 32 × BitVec 32 :=
  let m0 := bmul32 xh yh
  let m1 := bmul32 xl yl
  let m2 := bmul32 (xh ^^^ xl) (yh ^^^ yl)
  let ch := high m2 ^^^ (high m0 ^^^ high m1)
  let cl := low m2 ^^^ (low m0 ^^^ low m1)
  (high m0, low m0 ^^^ ch, high m1 ^^^ cl, low m1)

/-- `s_gfmul` up to the product, in four words. -/
def product (hh hl yl yh : BitVec 64) : BitVec 64 × BitVec 64 × BitVec 64 × BitVec 64 :=
  let (aah, aal, abh, abl) := karatsuba (high yl) (low yl) (high hh) (low hh)
  let (bah, bal, bbh, bbl) := karatsuba (high yh) (low yh) (high hl) (low hl)
  let (cah, cal, cbh, cbl) := karatsuba (high yl ^^^ high yh) (low yl ^^^ low yh)
    (high hh ^^^ high hl) (low hh ^^^ low hl)
  let cah := cah ^^^ (bah ^^^ aah)
  let cal := cal ^^^ (bal ^^^ aal)
  let cbh := cbh ^^^ (bbh ^^^ abh)
  let cbl := cbl ^^^ (bbl ^^^ abl)
  (join aah aal, join abh abl ^^^ join cah cal, join bah bal ^^^ join cbh cbl, join bbh bbl)

/-- `s_gfmul` from there: the shift, and the reduction. -/
def reduce (zhh zhl zlh zll : BitVec 64) : BitVec 64 × BitVec 64 :=
  let zhh := zhh <<< 1 ||| zhl >>> 63
  let zhl := zhl <<< 1 ||| zlh >>> 63
  let zlh := zlh <<< 1 ||| zll >>> 63
  let zll := zll <<< 1
  let zlh := zlh ^^^ ((zll <<< 63) ^^^ (zll <<< 62) ^^^ (zll <<< 57))
  let zhh := zhh ^^^ (zlh ^^^ (zlh >>> 1) ^^^ (zlh >>> 2) ^^^ (zlh >>> 7))
  let zhl := zhl ^^^ (zll ^^^ (zll >>> 1) ^^^ (zll >>> 2) ^^^ (zll >>> 7) ^^^ (zlh <<< 63)
    ^^^ (zlh <<< 62) ^^^ (zlh <<< 57))
  (zhh, zhl)

/-- `s_gfmul`, of the words `yl` and `yh` that it loads. -/
def gfmul (hh hl yl yh : BitVec 64) : BitVec 64 × BitVec 64 :=
  let (zhh, zhl, zlh, zll) := product hh hl yl yh
  reduce zhh zhl zlh zll

/-! ### The state of the source -/

/-- `AES::GMAC`. -/
structure State where
  rp : ℕ
  len : ℕ
  r : Bytes
  iv : Bytes
  y : Bytes

/-- `GMAC::init`; the remainder is left as it is. -/
def init (st : State) (iv : Bytes) : State :=
  { st with rp := 0, len := 0, iv := iv ++ [0, 0, 0, 1], y := List.replicate 16 0 }

/-- Eight bytes as a word, in network order. -/
def load64 (b : Bytes) (i : ℕ) : BitVec 64 := BitVec.ofNat 64 (beNat (slice b i 8))

/-- `p_k.sw.h`, as `p_initSW` leaves it. -/
def h (key : Bytes) : BitVec 64 × BitVec 64 :=
  let zero := Aes.encryptSW key (List.replicate 16 0)
  (load64 zero 0, load64 zero 8)

/-- `s_gfmul` on the bytes of `_y`. -/
def mulBytes (key y : Bytes) : Bytes :=
  let z := gfmul (h key).1 (h key).2 (load64 y 0) (load64 y 8)
  beBytes 8 z.1.toNat ++ beBytes 8 z.2.toNat

/-- A block is added to `_y`, which is then multiplied. -/
def absorb (key y b : Bytes) : Bytes := mulBytes key (xorStream (byteAt b) y)

/-- The loop of `GMAC::update` that fills up the remainder: the input after it, or nothing when the
input ended first. -/
def fill (rp : ℕ) (r : Bytes) : Bytes → ℕ × Bytes × Option Bytes
  | [] => (rp, r, none)
  | x :: input =>
      let r := setByte r rp x
      if rp + 1 = 16 then (rp + 1, r, some input) else fill (rp + 1) r input

/-- `GMAC::update` past the remainder. -/
def updateBlocks (key : Bytes) (st : State) (input : Bytes) : State :=
  { st with
    y := (blocks 16 input).foldl (absorb key) st.y
    r := splice st.r 0 (rest 16 input)
    rp := (rest 16 input).length }

/-- `GMAC::update`. -/
def update (key : Bytes) (st : State) (data : Bytes) : State :=
  let st := { st with len := (st.len + data.length) % 2 ^ 32 }
  if st.rp = 0 then updateBlocks key st data
  else
    match fill st.rp st.r data with
    | (rp, r, none) => { st with rp := rp, r := r }
    | (_, r, some input) => updateBlocks key { st with r := r, y := absorb key st.y r } input

/-- `GMAC::finish`. -/
def finish (key : Bytes) (st : State) : Bytes :=
  let y :=
    if st.rp = 0 then st.y
    else absorb key st.y (splice st.r st.rp (List.replicate (16 - st.rp) 0))
  let y := mulBytes key (xorStream (byteAt (beBytes 8 (st.len <<< 3))) y)
  let iv2 := Aes.encryptSW key (slice st.iv 0 12 ++ [0, 0, 0, 1])
  xorStream (byteAt y) iv2

/-! ### Products without carries -/

/-- The words of which every fourth bit is kept, from bit `i` on. -/
def hole (i : ℕ) : BitVec 32 := 0x11111111#32 <<< i

/-- The columns of their products. -/
def column (k : ℕ) : BitVec 64 := 0x1111111111111111#64 <<< k

theorem getLsbD_hole : ∀ i < 4, ∀ p < 32, (hole i).getLsbD p = decide (p % 4 = i) := by decide

theorem getLsbD_column : ∀ k < 4, ∀ p < 64, (column k).getLsbD p = decide (p % 4 = k) := by decide

theorem holes_and_hole (x : BitVec 32) {i : ℕ} (hi : i < 4) : Carryless.Holes 4 i (x &&& hole i) := by
  intro p hp
  have hlt : p < 32 := by
    by_contra h
    rw [BitVec.getLsbD_of_ge _ _ (by omega)] at hp
    cases hp
  rw [BitVec.getLsbD_and, getLsbD_hole i hi p hlt, Bool.and_eq_true, decide_eq_true_iff] at hp
  omega

/-- One of the sixteen products. -/
theorem poly_product (x y : BitVec 32) {i j : ℕ} (hi : i < 4) (hj : j < 4) :
    Carryless.poly (((x &&& hole i).setWidth 64 * (y &&& hole j).setWidth 64) &&& column ((i + j) % 4))
      = Carryless.poly (x &&& hole i) * Carryless.poly (y &&& hole j) := by
  refine Carryless.poly_mul_of_holes (w := 32) (r := 4) (m := 8) (by decide) (holes_and_hole x hi)
    (holes_and_hole y hj) (by decide) (by decide) ?_ fun p hp => ?_
  · have hx := (x &&& hole i).isLt
    have hy := (y &&& hole j).isLt
    have hxy := Nat.mul_lt_mul'' hx hy
    rw [BitVec.toNat_mul, BitVec.toNat_setWidth, BitVec.toNat_setWidth,
      Nat.mod_eq_of_lt (hx.trans (by decide)), Nat.mod_eq_of_lt (hy.trans (by decide)),
      Nat.mod_eq_of_lt hxy]
  · exact getLsbD_column _ (Nat.mod_lt _ (by decide)) p hp

/-- The four parts of a word. -/
theorem poly_eq_holes (x : BitVec 32) :
    Carryless.poly x = Carryless.poly (x &&& hole 0) + Carryless.poly (x &&& hole 1)
      + Carryless.poly (x &&& hole 2) + Carryless.poly (x &&& hole 3) := by
  rw [← Carryless.poly_xor, ← Carryless.poly_xor, ← Carryless.poly_xor]
  congr 1
  refine BitVec.eq_of_getLsbD_eq fun p hp => ?_
  simp only [BitVec.getLsbD_xor, BitVec.getLsbD_and, getLsbD_hole 0 (by decide) p hp,
    getLsbD_hole 1 (by decide) p hp, getLsbD_hole 2 (by decide) p hp,
    getLsbD_hole 3 (by decide) p hp]
  have hmod : p % 4 < 4 := Nat.mod_lt _ (by decide)
  cases x.getLsbD p with
  | false => rfl
  | true =>
      generalize p % 4 = k at hmod
      revert k
      decide

/-- The columns of the four classes do not overlap. -/
theorem or_columns (a b c d : BitVec 64) :
    ((c &&& column 2) ||| ((a &&& column 0) ||| (b &&& column 1))) ||| (d &&& column 3)
      = (a &&& column 0) ^^^ (b &&& column 1) ^^^ (c &&& column 2) ^^^ (d &&& column 3) := by
  refine BitVec.eq_of_getLsbD_eq fun p hp => ?_
  simp only [BitVec.getLsbD_or, BitVec.getLsbD_xor, BitVec.getLsbD_and,
    getLsbD_column 0 (by decide) p hp, getLsbD_column 1 (by decide) p hp,
    getLsbD_column 2 (by decide) p hp, getLsbD_column 3 (by decide) p hp]
  have hmod : p % 4 < 4 := Nat.mod_lt _ (by decide)
  generalize p % 4 = k at hmod
  generalize a.getLsbD p = a
  generalize b.getLsbD p = b
  generalize c.getLsbD p = c
  generalize d.getLsbD p = d
  revert k a b c d
  decide

theorem poly_xor_and (a b c d M : BitVec 64) :
    Carryless.poly ((a ^^^ b ^^^ c ^^^ d) &&& M) = Carryless.poly (a &&& M) + Carryless.poly (b &&& M)
      + Carryless.poly (c &&& M) + Carryless.poly (d &&& M) := by
  rw [← Carryless.poly_xor, ← Carryless.poly_xor, ← Carryless.poly_xor]
  congr 1
  refine BitVec.eq_of_getLsbD_eq fun p _ => ?_
  simp only [BitVec.getLsbD_xor, BitVec.getLsbD_and, Bool.and_xor_distrib_right]

/-- **`s_bmul32` is the product without carries.** -/
theorem poly_bmul32 (x y : BitVec 32) :
    Carryless.poly (bmul32 x y) = Carryless.poly x * Carryless.poly y := by
  have hproduct {i j k : ℕ} (hi : i < 4) (hj : j < 4) (hk : (i + j) % 4 = k) :
      Carryless.poly (((x &&& hole i).setWidth 64 * (y &&& hole j).setWidth 64) &&& column k)
        = Carryless.poly (x &&& hole i) * Carryless.poly (y &&& hole j) :=
    hk ▸ poly_product x y hi hj
  have hholes : 0x11111111#32 = hole 0 ∧ 0x22222222#32 = hole 1 ∧ 0x44444444#32 = hole 2 ∧
      0x88888888#32 = hole 3 := ⟨rfl, rfl, rfl, rfl⟩
  have hcolumns : 0x1111111111111111#64 = column 0 ∧ 0x2222222222222222#64 = column 1 ∧
      0x4444444444444444#64 = column 2 ∧ 0x8888888888888888#64 = column 3 := ⟨rfl, rfl, rfl, rfl⟩
  unfold bmul32
  simp only [hholes, hcolumns, or_columns, Carryless.poly_xor, poly_xor_and]
  simp (disch := decide) only [hproduct]
  rw [poly_eq_holes x, poly_eq_holes y]
  ring

/-! ### `s_gfmul` -/

open Ghash (toField e)

theorem high_append_low (v : BitVec 64) : high v ++ low v = v := by
  refine BitVec.eq_of_getLsbD_eq fun i hi => ?_
  rw [BitVec.getLsbD_append, high, low, BitVec.getLsbD_setWidth, BitVec.getLsbD_setWidth,
    BitVec.getLsbD_ushiftRight]
  split_ifs with h
  · rw [decide_eq_true h, Bool.true_and]
  · rw [decide_eq_true (by omega), Bool.true_and]
    congr 1
    omega

theorem join_eq (a b : BitVec 32) : join a b = a ++ b := by
  refine BitVec.eq_of_getLsbD_eq fun i hi => ?_
  rw [BitVec.getLsbD_append, join, BitVec.getLsbD_or, BitVec.getLsbD_shiftLeft,
    BitVec.getLsbD_setWidth, BitVec.getLsbD_setWidth, decide_eq_true hi, Bool.true_and,
    Bool.true_and]
  split_ifs with h
  · rw [decide_eq_true h, Bool.not_true, Bool.false_and, Bool.false_or]
  · rw [decide_eq_false h, BitVec.getLsbD_of_ge b i (by omega), Bool.or_false,
      decide_eq_true (by omega), Bool.true_and]
    rfl

theorem toField_halves (v : BitVec 64) :
    toField v = e ^ 32 * toField (high v) + toField (low v) := by
  conv_lhs => rw [← high_append_low v, Ghash.toField_append]

theorem toField_bmul32 (x y : BitVec 32) : toField (bmul32 x y) = toField x * toField y := by
  rw [toField, poly_bmul32, map_mul, toField, toField]

/-- The scheme with three products instead of four. -/
theorem toField_karatsuba (xh xl yh yl : BitVec 32) :
    e ^ 96 * toField (karatsuba xh xl yh yl).1 + e ^ 64 * toField (karatsuba xh xl yh yl).2.1
        + e ^ 32 * toField (karatsuba xh xl yh yl).2.2.1 + toField (karatsuba xh xl yh yl).2.2.2
      = (e ^ 32 * toField xh + toField xl) * (e ^ 32 * toField yh + toField yl) := by
  have h0 := (toField_halves (bmul32 xh yh)).symm.trans (toField_bmul32 xh yh)
  have h1 := (toField_halves (bmul32 xl yl)).symm.trans (toField_bmul32 xl yl)
  have h2 := (toField_halves (bmul32 (xh ^^^ xl) (yh ^^^ yl))).symm.trans (toField_bmul32 _ _)
  simp only [Ghash.toField_xor] at h2
  simp only [karatsuba, Ghash.toField_xor]
  linear_combination (e ^ 64 + e ^ 32) * h0 + (1 + e ^ 32) * h1 + e ^ 32 * h2
    + (e ^ 32 * (toField xh * toField yh + toField xl * toField yl)) * Ghash.two_eq_zero

/-- The four words of a product. -/
noncomputable def value (z : BitVec 64 × BitVec 64 × BitVec 64 × BitVec 64) : Ghash.Field :=
  e ^ 192 * toField z.1 + e ^ 128 * toField z.2.1 + e ^ 64 * toField z.2.2.1 + toField z.2.2.2

theorem value_product (hh hl yl yh : BitVec 64) :
    value (product hh hl yl yh) = toField (yl ++ yh) * toField (hh ++ hl) := by
  have ha := toField_karatsuba (high yl) (low yl) (high hh) (low hh)
  have hb := toField_karatsuba (high yh) (low yh) (high hl) (low hl)
  have hc := toField_karatsuba (high yl ^^^ high yh) (low yl ^^^ low yh)
    (high hh ^^^ high hl) (low hh ^^^ low hl)
  simp only [Ghash.toField_xor] at hc
  have hjoin (a b : BitVec 32) : toField (join a b) = e ^ 32 * toField a + toField b := by
    rw [join_eq, Ghash.toField_append]
  rw [Ghash.toField_append, Ghash.toField_append, toField_halves yl, toField_halves yh,
    toField_halves hh, toField_halves hl]
  simp only [value, product, Ghash.toField_xor, hjoin]
  generalize karatsuba (high yl) (low yl) (high hh) (low hh) = a at ha
  generalize karatsuba (high yh) (low yh) (high hl) (low hl) = b at hb
  generalize karatsuba (high yl ^^^ high yh) (low yl ^^^ low yh) (high hh ^^^ high hl)
    (low hh ^^^ low hl) = c at hc
  linear_combination (e ^ 128 + e ^ 64) * ha + (1 + e ^ 64) * hb + e ^ 64 * hc
    + (e ^ 64 * ((e ^ 32 * toField (high yl) + toField (low yl))
        * (e ^ 32 * toField (high hh) + toField (low hh))
      + (e ^ 32 * toField (high yh) + toField (low yh))
        * (e ^ 32 * toField (high hl) + toField (low hl)))) * Ghash.two_eq_zero

/-- The first bit of a product is not set. -/
theorem product_shiftRight (hh hl yl yh : BitVec 64) : (product hh hl yl yh).1 >>> 63 = 0#64 := by
  have htop : (bmul32 (high yl) (high hh)).getLsbD 63 = false := by
    refine Carryless.bit_injective ?_
    rw [← Carryless.coeff_poly, poly_bmul32, Carryless.coeff_mul_of_le _ _ (by decide)]
    rfl
  have hlast : (product hh hl yl yh).1.getLsbD 63 = false := by
    simp only [product, karatsuba, join_eq]
    rw [BitVec.getLsbD_append, if_neg (by decide), high, BitVec.getLsbD_setWidth,
      BitVec.getLsbD_ushiftRight]
    exact htop
  refine BitVec.eq_of_getLsbD_eq fun i _ => ?_
  rw [BitVec.getLsbD_ushiftRight, BitVec.getLsbD_zero]
  cases i with
  | zero => exact hlast
  | succ i => exact BitVec.getLsbD_of_ge _ _ (by omega)

/-- The bits that a shift by one takes from the next word. -/
theorem shift_or (a b : BitVec 64) : a <<< 1 ||| b >>> 63 = a <<< 1 ^^^ b >>> 63 := by
  refine Carryless.or_eq_xor (BitVec.eq_of_getLsbD_eq fun i hi => ?_)
  rw [BitVec.getLsbD_and, BitVec.getLsbD_shiftLeft, BitVec.getLsbD_ushiftRight, BitVec.getLsbD_zero]
  cases i with
  | zero =>
      rw [decide_eq_true (show 0 < 1 by decide), Bool.not_true, Bool.and_false, Bool.false_and]
      exact Bool.false_and _
  | succ i => rw [BitVec.getLsbD_of_ge b _ (by omega), Bool.and_false]

/-- **The reduction**: the last two words are added to the first two as often as the polynomial has
terms. -/
theorem toField_reduce {zhh : BitVec 64} (zhl zlh zll : BitVec 64) (h : zhh >>> 63 = 0#64) :
    e ^ 128 * toField ((reduce zhh zhl zlh zll).1 ++ (reduce zhh zhl zlh zll).2)
      = e * value (zhh, zhl, zlh, zll) := by
  have a1 := Ghash.toField_shift zhh (show 1 + 63 = 64 from rfl)
  have a2 := Ghash.toField_shift zhl (show 1 + 63 = 64 from rfl)
  have a3 := Ghash.toField_shift zlh (show 1 + 63 = 64 from rfl)
  have a4 := Ghash.toField_shift zll (show 1 + 63 = 64 from rfl)
  rw [h, Ghash.toField_zero] at a1
  simp only [reduce, shift_or]
  set zll1 := zll <<< 1 with hzll1
  have b63 := Ghash.toField_shift zll1 (show 63 + 1 = 64 from rfl)
  have b62 := Ghash.toField_shift zll1 (show 62 + 2 = 64 from rfl)
  have b57 := Ghash.toField_shift zll1 (show 57 + 7 = 64 from rfl)
  set zlh2 := zlh <<< 1 ^^^ zll >>> 63 ^^^ (zll1 <<< 63 ^^^ zll1 <<< 62 ^^^ zll1 <<< 57) with hzlh2
  have c63 := Ghash.toField_shift zlh2 (show 63 + 1 = 64 from rfl)
  have c62 := Ghash.toField_shift zlh2 (show 62 + 2 = 64 from rfl)
  have c57 := Ghash.toField_shift zlh2 (show 57 + 7 = 64 from rfl)
  have hsum : toField zlh2 = toField (zlh <<< 1) + toField (zll >>> 63)
      + (toField (zll1 <<< 63) + toField (zll1 <<< 62) + toField (zll1 <<< 57)) := by
    simp only [hzlh2, Ghash.toField_xor]
  simp only [Ghash.toField_append, Ghash.toField_xor, value]
  linear_combination -(e ^ 128) * (c63 + c62 + c57) - e ^ 64 * (b63 + b62 + b57)
    + (e ^ 64 * toField zlh2 + toField zll1) * Ghash.e_relation
    - e ^ 192 * a1 - e ^ 128 * a2 - e ^ 64 * a3 - a4 + e ^ 64 * hsum
    - (e ^ 64 * toField zlh2 + toField zll1) * Ghash.two_eq_zero

/-- **`s_gfmul` is the product of the standard.** -/
theorem gfmul_eq (hh hl yl yh : BitVec 64) :
    (gfmul hh hl yl yh).1 ++ (gfmul hh hl yl yh).2 = Ghash.mul (yl ++ yh) (hh ++ hl) := by
  refine Ghash.eq_mul_of_toField (Ghash.isUnit_e.mul_left_cancel ?_)
  rw [← value_product, gfmul, ← toField_reduce _ _ _ (product_shiftRight hh hl yl yh), ← mul_assoc,
    ← pow_succ']

/-! ### Blocks of bytes -/

/-- Sixteen bytes as a block. -/
def block (b : Bytes) : BitVec 128 := BitVec.ofNat 128 (beNat b)

/-- The bytes of a block. -/
def blockBytes (x : BitVec 128) : Bytes := beBytes 16 x.toNat

theorem length_blockBytes (x : BitVec 128) : (blockBytes x).length = 16 := length_beBytes 16 _

theorem toNat_block {b : Bytes} (hb : b.length = 16) : (block b).toNat = beNat b := by
  have hlt := beNat_lt b
  rw [hb] at hlt
  exact Nat.mod_eq_of_lt (hlt.trans_eq (by norm_num))

theorem block_blockBytes (x : BitVec 128) : block (blockBytes x) = x := by
  refine BitVec.eq_of_toNat_eq ?_
  rw [toNat_block (length_blockBytes x), blockBytes, beNat_beBytes]
  exact Nat.mod_eq_of_lt (x.isLt.trans_eq (by norm_num))

theorem blockBytes_block {b : Bytes} (hb : b.length = 16) : blockBytes (block b) = b := by
  rw [blockBytes, toNat_block hb, ← hb]
  exact beBytes_beNat b

theorem xorStream_eq {a b : Bytes} (ha : a.length = 16) (hb : b.length = 16) :
    xorStream (byteAt b) a = blockBytes (block a ^^^ block b) := by
  have hlen : (xorStream (byteAt b) a).length = 16 := (length_xorStream _ _).trans ha
  have hxor : block (xorStream (byteAt b) a) = block a ^^^ block b := by
    refine BitVec.eq_of_toNat_eq ?_
    rw [BitVec.toNat_xor, toNat_block hlen, toNat_block ha, toNat_block hb,
      beNat_xorStream (ha.trans hb.symm)]
  rw [← hxor, blockBytes_block hlen]

/-- The two words of a block. -/
theorem load64_append {b : Bytes} (hb : b.length = 16) : load64 b 0 ++ load64 b 8 = block b := by
  have hlow : (slice b 0 8).length = 8 := length_slice (by omega)
  have hhigh : (slice b 8 8).length = 8 := length_slice (by omega)
  have hsplit : slice b 0 8 ++ slice b 8 8 = b := by
    rw [slice_append_slice]
    exact List.take_of_length_le (by rw [List.drop_zero, hb])
  have h0 := beNat_lt (slice b 0 8)
  have h8 := beNat_lt (slice b 8 8)
  rw [hlow] at h0
  rw [hhigh] at h8
  refine BitVec.eq_of_toNat_eq ?_
  rw [toNat_block hb, BitVec.toNat_append, ← Nat.shiftLeft_add_eq_or_of_lt (BitVec.isLt _), load64,
    load64, BitVec.toNat_ofNat, BitVec.toNat_ofNat, Nat.mod_eq_of_lt (h0.trans_eq (by norm_num)),
    Nat.mod_eq_of_lt (h8.trans_eq (by norm_num)), Nat.shiftLeft_eq]
  conv_rhs => rw [← hsplit, beNat_append, hhigh]
  norm_num

theorem blockBytes_append (x y : BitVec 64) :
    blockBytes (x ++ y) = beBytes 8 x.toNat ++ beBytes 8 y.toNat := by
  have hx := x.isLt
  have hy := y.isLt
  have hval : beNat (beBytes 8 x.toNat ++ beBytes 8 y.toNat) = (x ++ y).toNat := by
    rw [beNat_append, length_beBytes, beNat_beBytes, beNat_beBytes, BitVec.toNat_append,
      ← Nat.shiftLeft_add_eq_or_of_lt hy, Nat.shiftLeft_eq,
      Nat.mod_eq_of_lt (hx.trans_eq (by norm_num)), Nat.mod_eq_of_lt (hy.trans_eq (by norm_num))]
    norm_num
  rw [blockBytes, ← hval]
  exact beBytes_beNat (beBytes 8 x.toNat ++ beBytes 8 y.toNat)

/-! ### The standard -/

/-- The hash key: the encrypted block of zeros. -/
def hashKey (key : Bytes) : BitVec 128 := block (Aes.encryptSW key (List.replicate 16 0))

/-- A message filled up with zeros. -/
def padded (m : Bytes) : Bytes := m ++ List.replicate ((16 - m.length % 16) % 16) 0

/-- The block of the lengths in bits, of what is authenticated and of the empty ciphertext. -/
def lengths (n : ℕ) : BitVec 128 := BitVec.ofNat 64 (8 * n) ++ 0#64

/-- The tag of a message, for which `n` is taken as its length. -/
def tagOf (n : ℕ) (key iv m : Bytes) : Bytes :=
  blockBytes (Ghash.hash (hashKey key) ((blocks 16 (padded m)).map block ++ [lengths n])
    ^^^ block (Aes.encryptSW key (iv ++ [0, 0, 0, 1])))

/-- GMAC of a message. -/
def tag (key iv m : Bytes) : Bytes := tagOf m.length key iv m

/-! ### One block -/

theorem hashKey_eq (key : Bytes) : (h key).1 ++ (h key).2 = hashKey key :=
  load64_append (Aes.length_encryptSW _ _)

theorem mulBytes_blockBytes (key : Bytes) (x : BitVec 128) :
    mulBytes key (blockBytes x) = blockBytes (Ghash.mul x (hashKey key)) := by
  rw [mulBytes, ← blockBytes_append, gfmul_eq, load64_append (length_blockBytes x),
    block_blockBytes, hashKey_eq]

theorem absorb_blockBytes (key : Bytes) (x : BitVec 128) {b : Bytes} (hb : b.length = 16) :
    absorb key (blockBytes x) b = blockBytes (Ghash.mul (x ^^^ block b) (hashKey key)) := by
  rw [absorb, xorStream_eq (length_blockBytes x) hb, block_blockBytes, mulBytes_blockBytes]

/-- The hash of blocks, in bytes. -/
theorem foldl_absorb (key : Bytes) {bs : List Bytes} (hbs : ∀ b ∈ bs, b.length = 16) (x : BitVec 128) :
    bs.foldl (absorb key) (blockBytes x)
      = blockBytes ((bs.map block).foldl (fun y b => Ghash.mul (y ^^^ b) (hashKey key)) x) := by
  induction bs generalizing x with
  | nil => rfl
  | cons b bs ih =>
      rw [List.foldl_cons, absorb_blockBytes key x (hbs b List.mem_cons_self),
        ih (fun c hc => hbs c (List.mem_cons_of_mem _ hc)), List.map_cons, List.foldl_cons]

/-- The block of the lengths is added as eight bytes. -/
theorem xorStream_lengths (x : BitVec 128) {n : ℕ} (hn : n < 2 ^ 32) :
    xorStream (byteAt (beBytes 8 (n <<< 3))) (blockBytes x) = blockBytes (x ^^^ lengths n) := by
  have hlen : (beBytes 8 (n <<< 3) ++ List.replicate 8 0).length = 16 := by simp
  have hbytes : ∀ i < (blockBytes x).length, byteAt (beBytes 8 (n <<< 3)) i
      = byteAt (beBytes 8 (n <<< 3) ++ List.replicate 8 0) i := by
    intro i hi
    rw [length_blockBytes] at hi
    by_cases h8 : i < 8
    · exact (byteAt_append_left (by rwa [length_beBytes])).symm
    · have hi8 : i = 8 + (i - 8) := by omega
      rw [hi8, byteAt_append_right (length_beBytes 8 _), byteAt, byteAt,
        List.getD_eq_default _ _ (by rw [length_beBytes]; omega)]
      exact (List.getD_replicate 0 (by omega)).symm
  have hvalue : n <<< 3 = 8 * n := by
    rw [Nat.shiftLeft_eq, Nat.mul_comm]
  have hblock : block (beBytes 8 (n <<< 3) ++ List.replicate 8 0) = lengths n := by
    have hw : beBytes 8 (n <<< 3) = beBytes 8 (BitVec.ofNat 64 (8 * n)).toNat := by
      rw [hvalue, BitVec.toNat_ofNat, Nat.mod_eq_of_lt (by omega)]
    have hz : List.replicate 8 (0 : UInt8) = beBytes 8 (0#64).toNat := by decide
    rw [hw, hz, ← blockBytes_append, block_blockBytes, lengths]
  rw [xorStream_congr hbytes, xorStream_eq (length_blockBytes x) hlen, block_blockBytes, hblock]

/-! ### Between two calls -/

/-- What the state is after the bytes `d`: the hash of their blocks, and what is left over in the
remainder. -/
structure Fed (key iv d : Bytes) (st : State) : Prop where
  rp : st.rp = (rest 16 d).length
  len : st.len = d.length % 2 ^ 32
  length_r : st.r.length = 16
  r : st.r.take st.rp = rest 16 d
  iv : st.iv = iv ++ [0, 0, 0, 1]
  y : st.y = blockBytes (Ghash.hash (hashKey key) ((blocks 16 d).map block))

variable {key iv d : Bytes} {st : State}

theorem Fed.init (key iv : Bytes) (h : st.r.length = 16) : Fed key iv [] (init st iv) := by
  have hzero : List.replicate 16 0 = blockBytes 0#128 := by decide
  exact ⟨rfl, rfl, h, rfl, rfl, hzero⟩

theorem Fed.rp_lt (h : Fed key iv d st) : st.rp < 16 :=
  h.rp.trans_lt (length_rest_lt (by decide) d)

/-- The blocks of further bytes are absorbed when none were kept back. -/
theorem Fed.updateBlocks (h : Fed key iv d st) (hd : rest 16 d = []) {m : Bytes} {n : ℕ}
    (hn : n = (d ++ m).length % 2 ^ 32) :
    Fed key iv (d ++ m) (updateBlocks key { st with len := n } m) := by
  have hblocks : blocks 16 (d ++ m) = blocks 16 d ++ blocks 16 m := by
    rw [blocks_append (by decide), hd, List.nil_append]
  have hrest : rest 16 (d ++ m) = rest 16 m := by
    rw [rest_append (by decide), hd, List.nil_append]
  have hfits : 0 + (rest 16 m).length ≤ st.r.length := by
    have := length_rest_lt (n := 16) (by decide) m
    rw [h.length_r]
    omega
  refine ⟨by rw [hrest]; rfl, hn, ?_, ?_, h.iv, ?_⟩
  · exact (length_splice hfits).trans h.length_r
  · have := take_splice hfits
    rw [Nat.zero_add, List.take_zero, List.nil_append] at this
    rw [hrest]
    exact this
  · have hy : (Gmac.updateBlocks key { st with len := n } m).y
        = (blocks 16 m).foldl (absorb key) st.y := rfl
    rw [hy, h.y, foldl_absorb key fun b hb => length_of_mem_blocks hb, hblocks, List.map_append,
      Ghash.hash_append]

/-- The loop that fills up the remainder. -/
theorem fill_eq {rp : ℕ} {r : Bytes} (hr : r.length = 16) (hrp : rp < 16) (m : Bytes) :
    fill rp r m = if rp + m.length < 16 then (rp + m.length, splice r rp m, none)
      else (16, splice r rp (m.take (16 - rp)), some (m.drop (16 - rp))) := by
  induction m generalizing rp r with
  | nil => rw [if_pos (by simpa using hrp), splice_nil]; rfl
  | cons x m ih =>
      have hset : (setByte r rp x).length = 16 := (length_setByte (by omega)).trans hr
      rw [fill]
      by_cases hlast : rp + 1 = 16
      · have hone : 16 - rp = 1 := by omega
        rw [if_pos hlast, if_neg (by rw [List.length_cons]; omega), hone, hlast]
        rfl
      · have hk : 16 - rp = (16 - (rp + 1)) + 1 := by omega
        rw [if_neg hlast, ih hset (by omega), hk, List.take_succ_cons, List.drop_succ_cons,
          List.length_cons]
        by_cases hshort : rp + 1 + m.length < 16
        · rw [if_pos hshort, if_pos (by omega), splice_setByte (by omega), Nat.add_right_comm,
            Nat.add_assoc]
        · have htake := List.length_take_le (16 - (rp + 1)) m
          rw [if_neg hshort, if_neg (by omega), splice_setByte (by omega)]

/-- **A call of `GMAC::update`** fills up the remainder, or goes on with whole blocks. -/
theorem Fed.update (h : Fed key iv d st) (m : Bytes) : Fed key iv (d ++ m) (update key st m) := by
  have hn : (st.len + m.length) % 2 ^ 32 = (d ++ m).length % 2 ^ 32 := by
    rw [h.len, List.length_append, Nat.mod_add_mod]
  have hlt := h.rp_lt
  rw [Gmac.update]
  dsimp only
  split_ifs with hzero
  · exact h.updateBlocks (List.eq_nil_of_length_eq_zero (h.rp ▸ hzero)) hn
  rw [fill_eq h.length_r hlt]
  by_cases hshort : st.rp + m.length < 16
  · -- all of the bytes go into the remainder
    have hfits : st.rp + m.length ≤ st.r.length := by
      rw [h.length_r]
      exact hshort.le
    have hrest : (rest 16 d ++ m).length < 16 := by
      rw [List.length_append, ← h.rp]
      exact hshort
    rw [if_pos hshort]
    refine ⟨?_, hn, (length_splice hfits).trans h.length_r, ?_, h.iv, ?_⟩
    · rw [rest_append (by decide), rest_of_lt hrest, List.length_append, ← h.rp]
    · exact (take_splice hfits).trans (by rw [h.r, rest_append (by decide), rest_of_lt hrest])
    · rw [blocks_append (by decide), blocks_of_lt hrest, List.append_nil]
      exact h.y
  -- the remainder is full and is absorbed
  set k := 16 - st.rp with hk
  have htake : (m.take k).length = k := List.length_take_of_le (by omega)
  have hfits : st.rp + (m.take k).length ≤ st.r.length := by
    rw [htake, h.length_r]
    omega
  have hblock : (rest 16 d ++ m.take k).length = 16 := by
    rw [List.length_append, ← h.rp, htake]
    omega
  have hfilled : splice st.r st.rp (m.take k) = rest 16 d ++ m.take k := by
    have htake' := take_splice hfits
    rw [h.r, htake, Nat.add_sub_cancel' hlt.le] at htake'
    exact (List.take_of_length_le (by rw [length_splice hfits, h.length_r])).symm.trans htake'
  have hblocks : blocks 16 (d ++ m.take k) = blocks 16 d ++ [rest 16 d ++ m.take k] := by
    rw [blocks_append (by decide), blocks_block (by decide) hblock]
  have hrest : rest 16 (d ++ m.take k) = [] := by
    rw [rest_append (by decide), rest_block (by decide) hblock]
  have hfull : Fed key iv (d ++ m.take k)
      { st with
        rp := 0
        len := (d ++ m.take k).length % 2 ^ 32
        r := splice st.r st.rp (m.take k)
        y := absorb key st.y (splice st.r st.rp (m.take k)) } := by
    refine ⟨by rw [hrest]; rfl, rfl, (length_splice hfits).trans h.length_r, by rw [hrest]; rfl,
      h.iv, ?_⟩
    rw [hblocks, List.map_append, Ghash.hash_append, hfilled, h.y, absorb_blockBytes key _ hblock]
    rfl
  have := hfull.updateBlocks hrest (m := m.drop k) (n := (st.len + m.length) % 2 ^ 32)
    (by rw [hn, List.append_assoc, List.take_append_drop])
  rw [if_neg hshort]
  rwa [List.append_assoc, List.take_append_drop] at this

/-- The blocks of a message that is filled up. -/
theorem blocks_padded (d : Bytes) :
    blocks 16 (padded d) = blocks 16 d ++ if rest 16 d = [] then []
      else [rest 16 d ++ List.replicate (16 - (rest 16 d).length) 0] := by
  have hlen := length_rest 16 d
  rw [padded]
  split_ifs with hd
  · have hmod : d.length % 16 = 0 := by rw [← hlen, hd]; rfl
    rw [hmod]
    simp
  · have hpos : (rest 16 d).length ≠ 0 := fun h0 => hd (List.eq_nil_of_length_eq_zero h0)
    have hzeros : (16 - d.length % 16) % 16 = 16 - (rest 16 d).length := by omega
    have hblock : (rest 16 d ++ List.replicate (16 - (rest 16 d).length) (0 : UInt8)).length = 16 := by
      rw [List.length_append, List.length_replicate]
      omega
    rw [hzeros, blocks_append (by decide), blocks_block (by decide) hblock]

/-- The tag, with the length as it was counted. -/
theorem Fed.finish (h : Fed key iv d st) (hiv : iv.length = 12) :
    finish key st = tagOf (d.length % 2 ^ 32) key iv d := by
  have hhead : slice st.iv 0 12 = iv := by
    rw [h.iv, slice, List.drop_zero, List.take_left' hiv]
  have hlt : d.length % 2 ^ 32 < 2 ^ 32 := Nat.mod_lt _ (Nat.two_pow_pos 32)
  have hy : (if st.rp = 0 then st.y
      else absorb key st.y (splice st.r st.rp (List.replicate (16 - st.rp) 0)))
      = blockBytes (Ghash.hash (hashKey key) ((blocks 16 (padded d)).map block)) := by
    rw [blocks_padded]
    by_cases hr : rest 16 d = []
    · have hzero : st.rp = 0 := by rw [h.rp, hr]; rfl
      rw [if_pos hzero, if_pos hr, List.append_nil, h.y]
    · have hpos : st.rp ≠ 0 := fun h0 => hr (List.eq_nil_of_length_eq_zero (h.rp ▸ h0))
      have hlt := h.rp_lt
      have hfits : st.rp + (List.replicate (16 - st.rp) (0 : UInt8)).length ≤ st.r.length := by
        rw [List.length_replicate, h.length_r]
        omega
      have hblock : (rest 16 d ++ List.replicate (16 - st.rp) (0 : UInt8)).length = 16 := by
        rw [List.length_append, List.length_replicate, ← h.rp]
        omega
      have hfilled : splice st.r st.rp (List.replicate (16 - st.rp) 0)
          = rest 16 d ++ List.replicate (16 - st.rp) 0 := by
        have htake := take_splice hfits
        rw [h.r, List.length_replicate, Nat.add_sub_cancel' hlt.le] at htake
        exact (List.take_of_length_le (by rw [length_splice hfits, h.length_r])).symm.trans htake
      rw [if_neg hpos, if_neg hr, hfilled, h.y, absorb_blockBytes key _ hblock, ← h.rp,
        List.map_append, Ghash.hash_append]
      rfl
  rw [Gmac.finish, hy, h.len, xorStream_lengths _ hlt, mulBytes_blockBytes, hhead,
    xorStream_eq (Aes.length_encryptSW _ _) (length_blockBytes _), block_blockBytes, BitVec.xor_comm,
    tagOf, Ghash.hash_append]
  rfl

theorem Fed.pieces (h : Fed key iv d st) (pieces : List Bytes) :
    Fed key iv (d ++ pieces.flatten) (pieces.foldl (Gmac.update key) st) := by
  induction pieces generalizing d st with
  | nil => simpa using h
  | cons m pieces ih =>
      have := ih (h.update m)
      rwa [List.append_assoc] at this

/-- **The tag is GMAC of the message**, however it was cut into pieces and whatever the object was
used for before. -/
theorem gmac_pieces (key : Bytes) (hiv : iv.length = 12) (hr : st.r.length = 16)
    (pieces : List Bytes) (hlen : pieces.flatten.length < 2 ^ 32) :
    finish key (pieces.foldl (update key) (init st iv)) = tag key iv pieces.flatten := by
  have h := ((Fed.init key iv hr).pieces pieces).finish hiv
  rw [List.nil_append, Nat.mod_eq_of_lt hlen] at h
  exact h

theorem gmac_pieces_two :
    finish (List.replicate 32 7) (update (List.replicate 32 7) (update (List.replicate 32 7)
        (init ⟨5, 9, List.replicate 16 1, [], []⟩ (List.replicate 12 3)) [1, 2, 3])
          (List.replicate 20 4))
      = tag (List.replicate 32 7) (List.replicate 12 3) ([1, 2, 3] ++ List.replicate 20 4) :=
  gmac_pieces (List.replicate 32 7) rfl rfl [[1, 2, 3], List.replicate 20 4] (by decide)

end Gmac

end ZGalaxy
