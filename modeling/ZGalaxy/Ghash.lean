/-
ZGalaxy/Ghash.lean

The field that GHASH multiplies in.

A block of 128 bits is a polynomial modulo `x ^ 128 + x ^ 7 + x ^ 2 + x + 1` with its first bit the
constant coefficient.  As a word has its last bit first, it is convenient to count in powers of
`e = x⁻¹` instead: up to the factor `x ^ 127`, a block is the polynomial of its word at `e`, which is
a root of the reversed polynomial.  `toField` is that value; it tells blocks apart
(`toField_injective`), and the product of the standard, bit by bit, becomes the product of the field
(`toField_mul`).

Main result: `eq_mul_of_toField`, how any other way to multiply is shown to be that of the standard.
-/
import Mathlib.RingTheory.AdjoinRoot
import Mathlib.Tactic.ComputeDegree
import Mathlib.Tactic.LinearCombination
import ZGalaxy.Carryless

open Polynomial

namespace Ghash

/-! ### The product of the standard -/

/-- The reduction polynomial past `x ^ 128`. -/
def reduction : BitVec 128 := 0xe1#128 <<< 120

/-- The product with `x`. -/
def mulX (v : BitVec 128) : BitVec 128 := if v.getLsbD 0 then (v >>> 1) ^^^ reduction else v >>> 1

/-- One step of the product: the sum so far, and the second factor times a power of `x`. -/
def mulStep (x : BitVec 128) (zv : BitVec 128 × BitVec 128) (i : ℕ) : BitVec 128 × BitVec 128 :=
  (if x.getLsbD (127 - i) then zv.1 ^^^ zv.2 else zv.1, mulX zv.2)

/-- The product of two blocks. -/
def mul (x y : BitVec 128) : BitVec 128 := ((List.range 128).foldl (mulStep x) (0#128, y)).1

/-- GHASH: each block is added to the sum so far, which is then multiplied by the key. -/
def hash (h : BitVec 128) (blocks : List (BitVec 128)) : BitVec 128 :=
  blocks.foldl (fun y b => mul (y ^^^ b) h) 0#128

theorem hash_append (h : BitVec 128) (as bs : List (BitVec 128)) :
    hash h (as ++ bs) = bs.foldl (fun y b => mul (y ^^^ b) h) (hash h as) :=
  List.foldl_append

/-! ### The field -/

/-- The reversed polynomial. -/
noncomputable def modulus : Carryless.F2[X] := X ^ 128 + X ^ 127 + X ^ 126 + X ^ 121 + 1

theorem modulus_eq : modulus = X ^ 128 + X ^ 127 + X ^ 126 + X ^ 121 + 1 := by
  unfold modulus
  rfl

/-- Polynomials modulo the reversed polynomial. -/
noncomputable abbrev Field : Type := AdjoinRoot modulus

/-- The inverse of `x`. -/
noncomputable def e : Field := AdjoinRoot.root modulus

/-- The value of a word at `e`. -/
noncomputable def toField {w : ℕ} (v : BitVec w) : Field :=
  AdjoinRoot.mk modulus (Carryless.poly v)

theorem two_eq_zero : (2 : Field) = 0 := by
  have h : (2 : Field) = AdjoinRoot.of modulus 2 := (map_ofNat _ 2).symm
  rw [h, Carryless.F2.two_eq_zero, map_zero]

theorem mk_X : AdjoinRoot.mk modulus X = e := AdjoinRoot.mk_X

/-- What a power of `e` is modulo the polynomial. -/
theorem e_relation : e ^ 128 + e ^ 127 + e ^ 126 + e ^ 121 + 1 = 0 := by
  have h := congrArg (AdjoinRoot.mk modulus) modulus_eq
  rw [AdjoinRoot.mk_self] at h
  simpa only [map_add, map_pow, map_one, mk_X] using h.symm

/-- The computations are in a ring in which two is zero, at a root of the reversed polynomial. -/
structure Root {K : Type*} [CommRing K] (e : K) : Prop where
  two : (2 : K) = 0
  relation : e ^ 128 + e ^ 127 + e ^ 126 + e ^ 121 + 1 = 0

namespace Root

variable {K : Type*} [CommRing K] {e : K} (h : Root e)

include h

theorem mul_eq_one : e * (e ^ 127 + e ^ 126 + e ^ 125 + e ^ 120) = 1 := by
  linear_combination h.relation - h.two

end Root

theorem root_e : Root e := ⟨two_eq_zero, e_relation⟩

theorem isUnit_e : IsUnit e := IsUnit.of_mul_eq_one _ root_e.mul_eq_one

variable {w : ℕ}

theorem toField_xor (u v : BitVec w) : toField (u ^^^ v) = toField u + toField v := by
  rw [toField, Carryless.poly_xor, map_add, toField, toField]

theorem toField_append {w' : ℕ} (u : BitVec w) (v : BitVec w') :
    toField (u ++ v) = e ^ w' * toField u + toField v := by
  rw [toField, Carryless.poly_append, map_add, map_mul, map_pow, mk_X, toField, toField]

theorem toField_shift (v : BitVec w) {k j : ℕ} (h : k + j = w) :
    e ^ k * toField v = e ^ w * toField (v >>> j) + toField (v <<< k) := by
  have hs := congrArg (AdjoinRoot.mk modulus) (Carryless.poly_shift v h)
  simpa only [map_add, map_mul, map_pow, mk_X, toField] using hs

theorem toField_zero : toField 0#w = 0 := by
  rw [toField, Carryless.poly_zero, map_zero]

theorem monic_modulus : modulus.Monic := by
  unfold modulus
  monicity!

theorem degree_modulus : modulus.degree = (128 : ℕ) := by
  unfold modulus
  compute_degree!

/-- **Blocks are told apart by their values**, as their degree is below that of the modulus. -/
theorem toField_injective {u v : BitVec 128} (h : toField u = toField v) : u = v := by
  rw [toField, toField, AdjoinRoot.mk_eq_mk] at h
  exact Carryless.eq_of_dvd monic_modulus degree_modulus h

/-! ### The product in the field -/

/-- The bits of a block, the first one first. -/
theorem toField_eq_sum (x : BitVec 128) :
    toField x = ∑ i ∈ Finset.range 128, if x.getLsbD (127 - i) then e ^ (127 - i) else 0 := by
  have hterm (i : ℕ) : AdjoinRoot.mk modulus (C (Carryless.bit (x.getLsbD i)) * X ^ i)
      = if x.getLsbD i then e ^ i else 0 := by
    rw [map_mul, map_pow, mk_X]
    cases x.getLsbD i <;> simp [Carryless.bit]
  rw [toField, Carryless.poly, map_sum, Finset.sum_congr rfl fun i _ => hterm i]
  exact (Finset.sum_range_reflect (fun i => if x.getLsbD i then e ^ i else 0) 128).symm

theorem toField_reduction : toField reduction = e ^ 127 + e ^ 126 + e ^ 125 + e ^ 120 := by
  have hparts : reduction = 0xe1#8 ++ 0#120 := by decide
  have hpoly : Carryless.poly 0xe1#8 = X ^ 7 + X ^ 6 + X ^ 5 + 1 := by
    simp [Carryless.poly, Finset.sum_range_succ, Carryless.bit]
    ring
  have hbyte : toField 0xe1#8 = e ^ 7 + e ^ 6 + e ^ 5 + 1 := by
    rw [toField, hpoly]
    simp only [map_add, map_pow, map_one, mk_X]
  rw [hparts, toField_append, toField_zero, hbyte]
  ring

/-- The last bit of a block and the others. -/
theorem toField_shiftRight_one (v : BitVec 128) :
    toField v = e * toField (v >>> 1) + if v.getLsbD 0 then 1 else 0 := by
  have hpoly : Carryless.poly v
      = X * Carryless.poly (v >>> 1) + C (Carryless.bit (v.getLsbD 0)) := by
    ext k
    rw [coeff_add, coeff_C, Carryless.coeff_poly]
    cases k with
    | zero => rw [coeff_X_mul_zero, if_pos rfl, zero_add]
    | succ k =>
        rw [coeff_X_mul, Carryless.coeff_poly, BitVec.getLsbD_ushiftRight, if_neg k.succ_ne_zero,
          add_zero, Nat.add_comm]
  rw [toField, hpoly, map_add, map_mul, mk_X, toField]
  cases v.getLsbD 0 <;> simp [Carryless.bit]

/-- `mulX` is the product with the inverse of `e`. -/
theorem toField_mulX (v : BitVec 128) : e * toField (mulX v) = toField v := by
  have hunit := root_e.mul_eq_one
  rw [toField_shiftRight_one v, mulX]
  split_ifs
  · rw [toField_xor, toField_reduction, mul_add, hunit]
  · exact (add_zero _).symm

/-- The first `n` steps of the product: the bits of the first factor so far times the second. -/
theorem toField_mulSteps (x y : BitVec 128) {n : ℕ} (hn : n ≤ 128) :
    e ^ n * toField ((List.range n).foldl (mulStep x) (0#128, y)).2 = toField y ∧
      e ^ 127 * toField ((List.range n).foldl (mulStep x) (0#128, y)).1
        = (∑ i ∈ Finset.range n, if x.getLsbD (127 - i) then e ^ (127 - i) else 0) * toField y := by
  induction n with
  | zero =>
      refine ⟨by rw [pow_zero, one_mul]; rfl, ?_⟩
      rw [Finset.sum_range_zero, zero_mul]
      exact (congrArg _ toField_zero).trans (mul_zero _)
  | succ n ih =>
      obtain ⟨hv, hz⟩ := ih (by omega)
      rw [List.range_succ, List.foldl_append, List.foldl_cons, List.foldl_nil]
      set zv := (List.range n).foldl (mulStep x) (0#128, y) with hzv
      have hpow : e ^ 127 = e ^ (127 - n) * e ^ n := by
        rw [← pow_add]
        congr 1
        omega
      refine ⟨?_, ?_⟩
      · rw [mulStep, pow_succ, mul_assoc, toField_mulX, hv]
      · rw [Finset.sum_range_succ, add_mul, ← hz, mulStep]
        dsimp only
        split_ifs
        · rw [toField_xor, mul_add, ← hv, ← mul_assoc (e ^ (127 - n)), ← hpow]
        · rw [zero_mul, add_zero]

/-- **The product of the standard is that of the field**, where both factors and the product lack the
factor `x ^ 127`. -/
theorem toField_mul (x y : BitVec 128) : e ^ 127 * toField (mul x y) = toField x * toField y := by
  rw [toField_eq_sum x]
  exact (toField_mulSteps x y le_rfl).2

/-- A block with the value of the product is the product. -/
theorem eq_mul_of_toField {x y z : BitVec 128} (h : e ^ 127 * toField z = toField x * toField y) :
    z = mul x y := by
  refine toField_injective ((isUnit_e.pow 127).mul_left_cancel ?_)
  rw [h, toField_mul]

end Ghash
