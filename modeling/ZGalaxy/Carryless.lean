/-
ZGalaxy/Carryless.lean

Products without carries.

A word is a polynomial over two elements, bit `i` the coefficient of `X ^ i` (`poly`).  Exclusive or is
the sum, appending and shifting are multiplication by a power of `X`, and the product without carries
is the product.

Where the machine has no instruction for it, that product is computed with integer products of words
with holes: of the bits of each factor only every `r`-th is kept.  Then the columns of the integer
product are `r` bits apart and add up to less than `2 ^ r`, so that no carry leaves its column, and
the lowest bit of a column is the coefficient of the product without carries (`poly_mul_of_holes`).
-/
import Mathlib.Algebra.Polynomial.Expand
import Mathlib.Algebra.Polynomial.Inductions
import Mathlib.Algebra.Polynomial.Monic
import Mathlib.Data.BitVec
import Mathlib.Data.ZMod.Basic

open Polynomial

namespace Carryless

variable {w : ℕ}

/-! ### Words as polynomials -/

/-- The ring of two elements. -/
def F2 : Type := ZMod 2

namespace F2

instance : CommRing F2 := inferInstanceAs (CommRing (ZMod 2))

instance : DecidableEq F2 := inferInstanceAs (DecidableEq (ZMod 2))

instance : Nontrivial F2 := ⟨0, 1, by decide⟩

theorem two_eq_zero : (2 : F2) = 0 := rfl

end F2

/-- A bit as a coefficient. -/
def bit (b : Bool) : F2 := if b then 1 else 0

theorem bit_xor (a b : Bool) : bit (a ^^ b) = bit a + bit b := by
  revert a b
  decide

theorem bit_injective {a b : Bool} (h : bit a = bit b) : a = b := by
  revert a b
  decide

/-- The coefficients of a polynomial that is given by them. -/
theorem coeff_sum {R : Type*} [Semiring R] {f : ℕ → R} (hf : ∀ k, w ≤ k → f k = 0) (k : ℕ) :
    (∑ i ∈ Finset.range w, C (f i) * X ^ i).coeff k = f k := by
  have hterm (i : ℕ) : (C (f i) * X ^ i).coeff k = if k = i then f k else 0 := by
    rw [coeff_C_mul_X_pow]
    split_ifs with h
    · rw [h]
    · rfl
  rw [finsetSum_coeff, Finset.sum_congr rfl fun i _ => hterm i, Finset.sum_ite_eq]
  split_ifs with h
  · rfl
  · exact (hf k (by rwa [Finset.mem_range, not_lt] at h)).symm

/-- The polynomial of a word. -/
noncomputable def poly (v : BitVec w) : (F2)[X] :=
  ∑ i ∈ Finset.range w, C (bit (v.getLsbD i)) * X ^ i

@[simp] theorem coeff_poly (v : BitVec w) (k : ℕ) : (poly v).coeff k = bit (v.getLsbD k) := by
  refine coeff_sum (f := fun i => bit (v.getLsbD i)) (fun i hi => ?_) k
  rw [BitVec.getLsbD_of_ge v i hi]
  rfl

theorem poly_injective {u v : BitVec w} (h : poly u = poly v) : u = v := by
  refine BitVec.eq_of_getLsbD_eq fun i _ => bit_injective ?_
  rw [← coeff_poly, h, coeff_poly]

theorem degree_poly_lt (v : BitVec w) : (poly v).degree < w := by
  rw [degree_lt_iff_coeff_zero]
  intro k hk
  rw [coeff_poly, BitVec.getLsbD_of_ge v k hk]
  rfl

/-- Words are told apart modulo a polynomial of the degree of their width. -/
theorem eq_of_dvd {f : (F2)[X]} (hf : f.Monic) (hdegree : f.degree = w) {u v : BitVec w}
    (h : f ∣ poly u - poly v) : u = v := by
  by_contra hne
  have hlt : (poly u - poly v).degree < f.degree := by
    rw [hdegree]
    exact (degree_sub_le _ _).trans_lt (max_lt (degree_poly_lt u) (degree_poly_lt v))
  exact hf.not_dvd_of_degree_lt (sub_ne_zero.mpr fun huv => hne (poly_injective huv)) hlt h

theorem poly_xor (u v : BitVec w) : poly (u ^^^ v) = poly u + poly v := by
  ext k
  rw [coeff_add, coeff_poly, coeff_poly, coeff_poly, BitVec.getLsbD_xor, bit_xor]

theorem poly_zero : poly 0#w = 0 := by
  ext k
  rw [coeff_poly, BitVec.getLsbD_zero, coeff_zero]
  rfl

/-- The product of two words has a bit less than both together. -/
theorem coeff_mul_of_le (u v : BitVec w) {p : ℕ} (h : w + w ≤ p + 1) :
    (poly u * poly v).coeff p = 0 := by
  rw [coeff_mul]
  refine Finset.sum_eq_zero fun x hx => ?_
  have hsum : x.1 + x.2 = p := Finset.HasAntidiagonal.mem_antidiagonal.mp hx
  rw [coeff_poly, coeff_poly]
  rcases Nat.lt_or_ge x.1 w with hx1 | hx1
  · rw [BitVec.getLsbD_of_ge v x.2 (by omega)]
    exact mul_zero _
  · rw [BitVec.getLsbD_of_ge u x.1 hx1]
    exact zero_mul _

/-- Disjoint words are combined either way. -/
theorem or_eq_xor {u v : BitVec w} (h : u &&& v = 0#w) : u ||| v = u ^^^ v := by
  refine BitVec.eq_of_getLsbD_eq fun i _ => ?_
  have hi := congrArg (fun x => x.getLsbD i) h
  simp only [BitVec.getLsbD_and, BitVec.getLsbD_zero] at hi
  rw [BitVec.getLsbD_or, BitVec.getLsbD_xor]
  cases hu : u.getLsbD i <;> cases hv : v.getLsbD i <;> simp_all

theorem poly_append {w' : ℕ} (u : BitVec w) (v : BitVec w') :
    poly (u ++ v) = X ^ w' * poly u + poly v := by
  ext k
  rw [coeff_add, coeff_X_pow_mul', coeff_poly, coeff_poly, coeff_poly, BitVec.getLsbD_append]
  by_cases h : k < w'
  · rw [if_pos h, if_neg (by omega), zero_add]
  · rw [if_neg h, if_pos (by omega), BitVec.getLsbD_of_ge v k (by omega)]
    exact (add_zero _).symm

/-- What a shift pushes out is the other part of the product with a power of `X`. -/
theorem poly_shift (v : BitVec w) {k j : ℕ} (h : k + j = w) :
    X ^ k * poly v = X ^ w * poly (v >>> j) + poly (v <<< k) := by
  ext n
  rw [coeff_add, coeff_X_pow_mul', coeff_X_pow_mul', coeff_poly, coeff_poly, coeff_poly,
    BitVec.getLsbD_ushiftRight, BitVec.getLsbD_shiftLeft]
  by_cases hn : n < w
  · rw [if_neg (show ¬ w ≤ n by omega), zero_add, decide_eq_true hn, Bool.true_and]
    by_cases hk : n < k
    · rw [if_neg (by omega), decide_eq_true hk]
      rfl
    · rw [if_pos (by omega), decide_eq_false hk]
      rfl
  · have hindex : j + (n - w) = n - k := by omega
    rw [if_pos (show k ≤ n by omega), if_pos (show w ≤ n by omega), decide_eq_false hn, hindex]
    exact (add_zero _).symm

/-! ### Digits -/

/-- The digits of the value of a polynomial are its coefficients, when those are digits. -/
theorem eval_div_pow_mod {b : ℕ} {F : ℕ[X]} (hF : ∀ s, F.coeff s < b) (s : ℕ) :
    F.eval b / b ^ s % b = F.coeff s := by
  induction s generalizing F with
  | zero =>
      have h := congrArg (eval b) (divX_mul_X_add F)
      simp only [eval_add, eval_mul, eval_X, eval_C] at h
      rw [pow_zero, Nat.div_one, ← h, Nat.mul_add_mod', Nat.mod_eq_of_lt (hF 0)]
  | succ s ih =>
      have hb : 0 < b := Nat.zero_lt_of_lt (hF 0)
      have h := congrArg (eval b) (divX_mul_X_add F)
      simp only [eval_add, eval_mul, eval_X, eval_C] at h
      have hdiv : F.eval b / b = (divX F).eval b := by
        rw [← h, Nat.mul_comm, Nat.mul_add_div hb, Nat.div_eq_of_lt (hF 0), Nat.add_zero]
      rw [pow_succ', ← Nat.div_div_eq_div_mul, hdiv, ih fun t => by rw [coeff_divX]; exact hF _,
        coeff_divX]

/-- A sum of products of bits has at most as many terms as one of the factors. -/
theorem coeff_mul_le {F G : ℕ[X]} {m : ℕ} (hF : ∀ u, F.coeff u ≤ 1) (hG : ∀ u, G.coeff u ≤ 1)
    (hm : ∀ u, m ≤ u → F.coeff u = 0) (s : ℕ) : (F * G).coeff s ≤ m := by
  rw [coeff_mul, Finset.Nat.sum_antidiagonal_eq_sum_range_succ fun u v => F.coeff u * G.coeff v]
  calc ∑ u ∈ Finset.range s.succ, F.coeff u * G.coeff (s - u)
      ≤ ∑ u ∈ Finset.range m, F.coeff u * G.coeff (s - u) := by
        refine Finset.sum_le_sum_of_ne_zero fun u _ hne => ?_
        rw [Finset.mem_range]
        by_contra hu
        exact hne (by rw [hm u (by omega), Nat.zero_mul])
    _ ≤ ∑ _u ∈ Finset.range m, 1 :=
        Finset.sum_le_sum fun u _ => Nat.mul_le_mul (hF u) (hG _)
    _ = m := by rw [Finset.sum_const, Finset.card_range, smul_eq_mul, Nat.mul_one]

/-! ### Words with holes -/

/-- Only the bits at `i` and every `r` places from there are set. -/
def Holes (r i : ℕ) (v : BitVec w) : Prop := ∀ p, v.getLsbD p = true → i ≤ p ∧ r ∣ p - i

/-- The bits at `i` and every `r` places from there. -/
noncomputable def comb (r i : ℕ) (v : BitVec w) : ℕ[X] :=
  ∑ u ∈ Finset.range w, C (v.getLsbD (i + r * u)).toNat * X ^ u

variable {r i j : ℕ}

theorem coeff_comb (hr : 0 < r) (i : ℕ) (v : BitVec w) (u : ℕ) :
    (comb r i v).coeff u = (v.getLsbD (i + r * u)).toNat := by
  refine coeff_sum (f := fun u => (v.getLsbD (i + r * u)).toNat) (fun u hu => ?_) u
  have hle : u ≤ r * u := Nat.le_mul_of_pos_left u hr
  rw [BitVec.getLsbD_of_ge v _ (by omega)]
  rfl

theorem coeff_comb_le (hr : 0 < r) (i : ℕ) (v : BitVec w) (u : ℕ) : (comb r i v).coeff u ≤ 1 := by
  rw [coeff_comb hr]
  exact Bool.toNat_le _

/-- Past the end of the word there is nothing in the comb. -/
theorem coeff_comb_of_ge (hr : 0 < r) (i : ℕ) (v : BitVec w) {m u : ℕ} (hm : w ≤ r * m)
    (hu : m ≤ u) : (comb r i v).coeff u = 0 := by
  have hle : r * m ≤ r * u := Nat.mul_le_mul_left r hu
  rw [coeff_comb hr, BitVec.getLsbD_of_ge v _ (by omega)]
  rfl

/-- A place of a word with holes is in the comb or is a hole. -/
theorem Holes.getLsbD {v : BitVec w} (h : Holes r i v) (p : ℕ) :
    v.getLsbD p = if i ≤ p ∧ r ∣ p - i then v.getLsbD (i + r * ((p - i) / r)) else false := by
  split_ifs with hp
  · congr 1
    rw [Nat.mul_div_cancel' hp.2]
    omega
  · cases hv : v.getLsbD p
    · rfl
    · exact absurd (h p hv) hp

/-- The number of a word with holes. -/
theorem toNat_of_holes (hr : 0 < r) {v : BitVec w} (h : Holes r i v) :
    v.toNat = 2 ^ i * (comb r i v).eval (2 ^ r) := by
  have hdigit : ∀ u, (comb r i v).coeff u < 2 ^ r := fun u =>
    (coeff_comb_le hr i v u).trans_lt (Nat.one_lt_two_pow hr.ne')
  refine Nat.eq_of_testBit_eq fun p => ?_
  rw [BitVec.testBit_toNat, Nat.testBit_two_pow_mul, h.getLsbD p]
  by_cases hp : i ≤ p
  · rw [decide_eq_true (show p ≥ i from hp), Bool.true_and]
    -- bit `t` of digit `u`
    have hdigits : ((comb r i v).eval (2 ^ r)).testBit (p - i)
        = ((comb r i v).coeff ((p - i) / r)).testBit ((p - i) % r) := by
      rw [← eval_div_pow_mod hdigit, ← Nat.pow_mul, Nat.testBit_mod_two_pow,
        decide_eq_true (Nat.mod_lt _ hr), Bool.true_and, Nat.testBit_div_two_pow]
      congr 1
      rw [Nat.add_comm, Nat.div_add_mod]
    rw [hdigits, coeff_comb hr]
    by_cases hdvd : r ∣ p - i
    · rw [if_pos ⟨hp, hdvd⟩, Nat.mod_eq_zero_of_dvd hdvd]
      cases v.getLsbD (i + r * ((p - i) / r)) <;> rfl
    · have hpos : (p - i) % r ≠ 0 := fun h0 => hdvd (Nat.dvd_of_mod_eq_zero h0)
      rw [if_neg fun hh => hdvd hh.2]
      refine (Nat.testBit_lt_two_pow ?_).symm
      exact (Bool.toNat_le _).trans_lt (Nat.one_lt_two_pow hpos)
  · rw [if_neg fun hh => hp hh.1, decide_eq_false hp, Bool.false_and]

/-- The polynomial of a word with holes. -/
theorem poly_of_holes (hr : 0 < r) {v : BitVec w} (h : Holes r i v) :
    poly v = X ^ i * expand (F2) r ((comb r i v).map (Nat.castRingHom (F2))) := by
  ext p
  rw [coeff_poly, h.getLsbD p, coeff_X_pow_mul', coeff_expand hr, coeff_map, coeff_comb hr]
  by_cases hp : i ≤ p
  · by_cases hdvd : r ∣ p - i
    · rw [if_pos ⟨hp, hdvd⟩, if_pos hp, if_pos hdvd]
      cases v.getLsbD (i + r * ((p - i) / r)) <;> simp [bit]
    · rw [if_neg fun hh => hdvd hh.2, if_pos hp, if_neg hdvd]
      rfl
  · rw [if_neg fun hh => hp hh.1, if_neg hp]
    rfl

theorem bit_testBit_zero (n : ℕ) : bit (n.testBit 0) = (n : F2) := by
  rw [Nat.testBit_zero]
  conv_rhs => rw [← Nat.div_add_mod n 2, Nat.cast_add, Nat.cast_mul, Nat.cast_ofNat, F2.two_eq_zero,
    zero_mul, zero_add]
  rcases Nat.mod_two_eq_zero_or_one n with h | h <;> rw [h]
  · exact Nat.cast_zero.symm
  · exact Nat.cast_one.symm

/-- **The product of words with holes**, masked to the places of its columns, is their product without
carries.  Each factor has at most `m` bits, and `m` ones do not fill a column. -/
theorem poly_mul_of_holes (hr : 0 < r) {a b : BitVec w} (ha : Holes r i a) (hb : Holes r j b) {m : ℕ}
    (hm : w ≤ r * m) (hcol : m < 2 ^ r) {c M : BitVec (w + w)} (hc : c.toNat = a.toNat * b.toNat)
    (hM : ∀ p < w + w, M.getLsbD p = decide (p % r = (i + j) % r)) :
    poly (c &&& M) = poly a * poly b := by
  set F := comb r i a * comb r j b with hF
  have hdigit : ∀ s, F.coeff s < 2 ^ r := fun s =>
    (coeff_mul_le (coeff_comb_le hr i a) (coeff_comb_le hr j b)
      (fun u hu => coeff_comb_of_ge hr i a hm hu) s).trans_lt hcol
  have hnat : c.toNat = 2 ^ (i + j) * F.eval (2 ^ r) := by
    rw [hc, toNat_of_holes hr ha, toNat_of_holes hr hb, hF, eval_mul, pow_add]
    ring
  have hpoly : poly a * poly b
      = X ^ (i + j) * expand (F2) r (F.map (Nat.castRingHom (F2))) := by
    rw [poly_of_holes hr ha, poly_of_holes hr hb, hF, Polynomial.map_mul, map_mul, pow_add]
    ring
  ext p
  rw [coeff_poly, BitVec.getLsbD_and]
  by_cases hp : p < w + w
  · rw [hM p hp, hpoly, coeff_X_pow_mul', coeff_expand hr]
    by_cases hmod : p % r = (i + j) % r
    · rw [decide_eq_true hmod, Bool.and_true, ← BitVec.testBit_toNat, hnat, Nat.testBit_two_pow_mul]
      by_cases hle : i + j ≤ p
      · -- the lowest bit of a column
        have hdvd : r ∣ p - (i + j) := (Nat.modEq_iff_dvd' hle).mp hmod.symm
        have hcolumn : (F.eval (2 ^ r)).testBit (p - (i + j))
            = (F.coeff ((p - (i + j)) / r)).testBit 0 := by
          rw [← eval_div_pow_mod hdigit, ← Nat.pow_mul, Nat.testBit_mod_two_pow, decide_eq_true hr,
            Bool.true_and, Nat.testBit_div_two_pow, Nat.zero_add, Nat.mul_div_cancel' hdvd]
        rw [if_pos hle, if_pos hdvd, decide_eq_true (show p ≥ i + j from hle), Bool.true_and,
          hcolumn, bit_testBit_zero, coeff_map]
        rfl
      · rw [if_neg hle, decide_eq_false hle, Bool.false_and]
        rfl
    · rw [decide_eq_false hmod, Bool.and_false]
      split_ifs with hle hdvd
      · exact absurd ((Nat.modEq_iff_dvd' hle).mpr hdvd).symm hmod
      · rfl
      · rfl
  · -- past the end of the product
    rw [BitVec.getLsbD_of_ge c p (by omega), Bool.false_and, coeff_mul_of_le a b (by omega)]
    rfl

end Carryless
