/-
ZGalaxy/Words.lean

Machine words as numbers, and byte strings as little-endian numbers.

Arithmetic code on words is read in two steps.  The first says what number each word holds: a mask
of low bits is a remainder (`toNat_and_mask`), a right shift a quotient (`toNat_shiftRight`), an or
of words without a common bit a sum (`or_eq_add`), and an addition or a product is the exact one
below the width.  The second is arithmetic on numbers.  Masks that are not a run of low bits are cut
where the words are cut (`and_add_two_pow_mul`).

Little-endian numbers (`leValue`, `leDigits`) are inverse to each other below the width, and the
number of a byte string is that of its front part plus that of the rest, shifted
(`leValue_append`).
-/
import ZGalaxy.Bytes
import Mathlib.Data.Nat.Bitwise
import Mathlib.Tactic.NormNum

namespace Words

/-! ### Bits of numbers -/

/-- Numbers without a common bit: one below `2 ^ k`, the other a multiple of it. -/
theorem or_eq_add {a b k : ℕ} (ha : a < 2 ^ k) (hb : 2 ^ k ∣ b) : a ||| b = a + b := by
  obtain ⟨c, rfl⟩ := hb
  rw [Nat.or_comm, ← Nat.two_pow_add_eq_or_of_lt ha, Nat.add_comm]

/-- A mask below `2 ^ k` only sees the bits below `k`. -/
theorem mod_two_pow_and {m k : ℕ} (a : ℕ) (hm : m < 2 ^ k) : a % 2 ^ k &&& m = a &&& m := by
  refine Nat.eq_of_testBit_eq fun i => ?_
  rw [Nat.testBit_and, Nat.testBit_and, Nat.testBit_mod_two_pow]
  by_cases hi : i < k
  · simp [hi]
  · have : m.testBit i = false := Nat.testBit_lt_two_pow
      (hm.trans_le (Nat.pow_le_pow_right (by decide) (by omega)))
    simp [this]

/-- A mask cut at bit `k` is applied to the two parts of a number apart. -/
theorem and_add_two_pow_mul {a m k : ℕ} (b n : ℕ) (ha : a < 2 ^ k) (hm : m < 2 ^ k) :
    (a + 2 ^ k * b) &&& (m + 2 ^ k * n) = (a &&& m) + 2 ^ k * (b &&& n) := by
  have ham : a &&& m < 2 ^ k := Nat.and_lt_two_pow a hm
  rw [Nat.add_comm a, Nat.add_comm m, Nat.add_comm (a &&& m)]
  refine Nat.eq_of_testBit_eq fun i => ?_
  rw [Nat.testBit_and, Nat.testBit_two_pow_mul_add b ha, Nat.testBit_two_pow_mul_add n hm,
    Nat.testBit_two_pow_mul_add _ ham]
  split_ifs <;> rw [Nat.testBit_and]

/-! ### Numbers in words -/

variable {w : ℕ}

/-- A mask of the `n` low bits takes a remainder. -/
theorem toNat_and_mask (x : BitVec w) {n : ℕ} (hn : n ≤ w) :
    (x &&& BitVec.ofNat w (2 ^ n - 1)).toNat = x.toNat % 2 ^ n := by
  have hlt : 2 ^ n - 1 < 2 ^ w := by
    have := Nat.pow_le_pow_right (n := 2) (by decide) hn
    have := Nat.two_pow_pos n
    omega
  rw [BitVec.toNat_and, BitVec.toNat_ofNat, Nat.mod_eq_of_lt hlt, Nat.and_two_pow_sub_one_eq_mod]

theorem toNat_shiftRight (x : BitVec w) (n : ℕ) : (x >>> n).toNat = x.toNat / 2 ^ n := by
  rw [BitVec.toNat_ushiftRight, Nat.shiftRight_eq_div_pow]

theorem toNat_shiftLeft (x : BitVec w) (n : ℕ) : (x <<< n).toNat = x.toNat * 2 ^ n % 2 ^ w := by
  rw [BitVec.toNat_shiftLeft, Nat.shiftLeft_eq]

theorem toNat_add {x y : BitVec w} (h : x.toNat + y.toNat < 2 ^ w) :
    (x + y).toNat = x.toNat + y.toNat := by
  rw [BitVec.toNat_add, Nat.mod_eq_of_lt h]

theorem toNat_mul {x y : BitVec w} (h : x.toNat * y.toNat < 2 ^ w) :
    (x * y).toNat = x.toNat * y.toNat := by
  rw [BitVec.toNat_mul, Nat.mod_eq_of_lt h]

/-- The bits from `k` on of a double word are the high bits of its low word with the low bits of
its high word above them. -/
theorem toNat_shiftRight_or_shiftLeft (x y : BitVec w) {k j : ℕ} (h : k + j = w) :
    (x >>> k ||| y <<< j).toNat = (x.toNat + 2 ^ w * y.toNat) / 2 ^ k % 2 ^ w := by
  have hw : 2 ^ w = 2 ^ k * 2 ^ j := by rw [← h, Nat.pow_add]
  have hx : x.toNat / 2 ^ k < 2 ^ j := by
    rw [Nat.div_lt_iff_lt_mul (Nat.two_pow_pos k), Nat.mul_comm, ← hw]
    exact x.isLt
  have hdvd : 2 ^ j ∣ y.toNat * 2 ^ j % 2 ^ w := by
    rw [hw, Nat.mul_mod_mul_right]
    exact Nat.dvd_mul_left _ _
  have hdiv : (x.toNat + 2 ^ w * y.toNat) / 2 ^ k = x.toNat / 2 ^ k + y.toNat * 2 ^ j := by
    rw [hw, Nat.mul_assoc, Nat.add_mul_div_left _ _ (Nat.two_pow_pos k), Nat.mul_comm (2 ^ j)]
  have hsum : x.toNat / 2 ^ k + y.toNat * 2 ^ j % 2 ^ w < 2 ^ w := by
    rw [← or_eq_add hx hdvd]
    exact Nat.or_lt_two_pow ((Nat.div_le_self _ _).trans_lt x.isLt)
      (Nat.mod_lt _ (Nat.two_pow_pos w))
  rw [BitVec.toNat_or, toNat_shiftRight, toNat_shiftLeft, or_eq_add hx hdvd, hdiv, Nat.add_mod,
    ← Nat.mod_eq_of_lt hsum, Nat.add_mod, Nat.mod_mod, Nat.add_mod_mod]

/-! ### Choosing with a mask -/

/-- The mask of no bits keeps the first word. -/
theorem select_zero (x y : BitVec w) : (x &&& ~~~0#w) ||| (y &&& 0#w) = x := by
  rw [BitVec.not_zero, BitVec.and_allOnes, BitVec.and_zero, BitVec.or_zero]

/-- The mask of all bits takes the second. -/
theorem select_allOnes (x y : BitVec w) :
    (x &&& ~~~BitVec.allOnes w) ||| (y &&& BitVec.allOnes w) = y := by
  rw [BitVec.not_allOnes, BitVec.and_zero, BitVec.and_allOnes, BitVec.zero_or]

end Words

namespace ByteList

/-! ### Little-endian integers -/

/-- The value of a little-endian byte string. -/
def leValue : Bytes → ℕ
  | [] => 0
  | x :: b => x.toNat + 256 * leValue b

/-- The `n` low-order bytes of `v`, least significant first. -/
def leDigits : ℕ → ℕ → Bytes
  | 0, _ => []
  | n + 1, v => UInt8.ofNat v :: leDigits n (v / 256)

@[simp] theorem length_leDigits (n v : ℕ) : (leDigits n v).length = n := by
  induction n generalizing v with
  | zero => rfl
  | succ n ih => simp [leDigits, ih]

theorem leValue_append (b c : Bytes) :
    leValue (b ++ c) = leValue b + 256 ^ b.length * leValue c := by
  induction b with
  | nil => simp [leValue]
  | cons x b ih =>
      rw [List.cons_append, leValue, ih, leValue, List.length_cons, pow_succ]
      ring

theorem leValue_lt (b : Bytes) : leValue b < 256 ^ b.length := by
  induction b with
  | nil => simp [leValue]
  | cons x b ih =>
      have hx : x.toNat < 256 := x.toNat_lt
      rw [leValue, List.length_cons, pow_succ]
      omega

/-- A field of a byte string as digits of its number. -/
theorem leValue_slice (b : Bytes) {i n : ℕ} (h : i + n ≤ b.length) :
    leValue (slice b i n) = leValue b / 256 ^ i % 256 ^ n := by
  have hlow : (slice b 0 i).length = i := length_slice (by omega)
  have hmid : (slice b i n).length = n := length_slice h
  have hjoin : slice b 0 i ++ slice b i n = slice b 0 (i + n) := by
    rw [← slice_append_slice, Nat.zero_add]
  have hsplit : b = slice b 0 i ++ (slice b i n ++ b.drop (i + n)) := by
    rw [← List.append_assoc, hjoin, slice_zero_append]
  have hvalue : leValue b
      = leValue (slice b 0 i) + 256 ^ i * (leValue (slice b i n)
        + 256 ^ n * leValue (b.drop (i + n))) := by
    conv_lhs => rw [hsplit]
    rw [leValue_append, leValue_append, hlow, hmid]
  have hlt := leValue_lt (slice b 0 i)
  have hlt' := leValue_lt (slice b i n)
  rw [hlow] at hlt
  rw [hmid] at hlt'
  rw [hvalue, Nat.add_mul_div_left _ _ (by positivity), Nat.div_eq_of_lt hlt, Nat.zero_add,
    Nat.add_mul_mod_self_left, Nat.mod_eq_of_lt hlt']

@[simp] theorem leValue_replicate_zero (n : ℕ) : leValue (List.replicate n 0) = 0 := by
  induction n with
  | zero => rfl
  | succ n ih => rw [List.replicate_succ, leValue, ih]; rfl

theorem leValue_leDigits (n v : ℕ) : leValue (leDigits n v) = v % 256 ^ n := by
  induction n generalizing v with
  | zero => simp [leDigits, leValue, Nat.mod_one]
  | succ n ih =>
      have hmod : v % 256 ^ (n + 1) = v % 256 + 256 * (v / 256 % 256 ^ n) := by
        rw [pow_succ, Nat.mul_comm, Nat.mod_mul]
      rw [leDigits, leValue, ih, UInt8.toNat_ofNat', hmod]

theorem leDigits_leValue (b : Bytes) : leDigits b.length (leValue b) = b := by
  induction b with
  | nil => rfl
  | cons x b ih =>
      have hx : x.toNat < 256 := x.toNat_lt
      have hdiv : (x.toNat + 256 * leValue b) / 256 = leValue b := by omega
      have hmod : UInt8.ofNat (x.toNat + 256 * leValue b) = x := by
        apply UInt8.toNat_inj.mp
        rw [UInt8.toNat_ofNat']
        omega
      rw [List.length_cons, leDigits, leValue, hdiv, ih, hmod]

/-- The digits of a number are those of its low part, then those of its high part. -/
theorem leDigits_add (n m v : ℕ) :
    leDigits (n + m) v = leDigits n v ++ leDigits m (v / 256 ^ n) := by
  induction n generalizing v with
  | zero => simp [leDigits]
  | succ n ih =>
      rw [Nat.succ_add, leDigits, ih, leDigits, List.cons_append, Nat.div_div_eq_div_mul,
        pow_succ, Nat.mul_comm 256]

/-- Only what is below the width counts. -/
theorem leDigits_mod (n v : ℕ) : leDigits n (v % 256 ^ n) = leDigits n v := by
  have h := leDigits_leValue (leDigits n v)
  rwa [length_leDigits, leValue_leDigits] at h

/-- The digits of a number given by its low part, of which only that counts, and its high part. -/
theorem leDigits_mod_add (n m a b : ℕ) :
    leDigits (n + m) (a % 256 ^ n + 256 ^ n * b) = leDigits n a ++ leDigits m b := by
  have hpos : 0 < 256 ^ n := by positivity
  have hlt : a % 256 ^ n < 256 ^ n := Nat.mod_lt _ hpos
  have hlow : leDigits n (a % 256 ^ n + 256 ^ n * b) = leDigits n a := by
    rw [← leDigits_mod, Nat.add_mul_mod_self_left, Nat.mod_mod, leDigits_mod]
  rw [leDigits_add, hlow, Nat.add_mul_div_left _ _ hpos, Nat.div_eq_of_lt hlt, Nat.zero_add]

end ByteList
