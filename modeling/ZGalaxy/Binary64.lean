/-
ZGalaxy/Binary64.lean

Numbers in double precision.

A finite number is a rational one that 53 binary digits and an exponent can write.  An integer with
more digits is rounded to the nearest that has no more, and between two to the one whose last digit
is even.  The two zeros, which compare as equal, are one number here.

Main result: `ofInt_val`, an integer that is such a number stays what it is.
-/
import Mathlib.Data.Nat.Log
import Mathlib.Data.Rat.Lemmas
import Mathlib.Tactic.Linarith
import Mathlib.Tactic.Positivity
import Mathlib.Tactic.Ring

/-- A finite number in double precision. -/
structure Binary64 where
  val : ℚ
  finite : ∃ (m e : ℤ), m.natAbs < 2 ^ 53 ∧ -1074 ≤ e ∧ e ≤ 971 ∧ val = m * (2 : ℚ) ^ e

namespace Binary64

@[ext] theorem ext {x y : Binary64} (h : x.val = y.val) : x = y := by
  cases x
  cases y
  cases h
  rfl

instance : DecidableEq Binary64 := fun _ _ => decidable_of_iff _ ⟨ext, congrArg val⟩

/-- The number without what is behind its point. -/
def trunc (x : Binary64) : ℤ := x.val.num.tdiv x.val.den

/-! ### Rounding -/

/-- How many binary digits there are beyond 53. -/
def excess (n : ℕ) : ℕ := n.log2 - 52

/-- The digits that are kept, rounded. -/
def kept (n : ℕ) : ℕ :=
  let q := n / 2 ^ excess n
  let r := n % 2 ^ excess n
  if 2 * r < 2 ^ excess n ∨ 2 * r = 2 ^ excess n ∧ q % 2 = 0 then q else q + 1

/-- The nearest number with no more than 53 digits. -/
def roundNat (n : ℕ) : ℕ := kept n * 2 ^ excess n

theorem kept_le (n : ℕ) : kept n ≤ 2 ^ 53 := by
  have hq : n / 2 ^ excess n < 2 ^ 53 := by
    rw [Nat.div_lt_iff_lt_mul (Nat.two_pow_pos _), ← Nat.pow_add]
    refine Nat.lt_of_lt_of_le (Nat.lt_log2_self (n := n)) (Nat.pow_le_pow_right (by decide) ?_)
    unfold excess
    omega
  unfold kept
  dsimp only
  split_ifs
  · exact hq.le
  · exact hq

/-- A number whose last digits are zero is kept. -/
theorem roundNat_of_dvd {n : ℕ} (h : 2 ^ excess n ∣ n) : roundNat n = n := by
  have hr : n % 2 ^ excess n = 0 := Nat.mod_eq_zero_of_dvd h
  rw [roundNat, kept, hr]
  exact (congrArg (· * _) (if_pos (Or.inl (Nat.two_pow_pos _)))).trans (Nat.div_mul_cancel h)

/-- What 53 digits and an exponent write has only zeros beyond. -/
theorem dvd_of_finite {n : ℕ} {m e : ℤ} (hm : m.natAbs < 2 ^ 53)
    (h : (n : ℚ) = m * (2 : ℚ) ^ e) : 2 ^ excess n ∣ n := by
  rcases le_or_gt e 0 with he | he
  · -- the number has no more than 53 digits itself
    have hle : n < 2 ^ 53 := by
      have hpow : (2 : ℚ) ^ e ≤ 1 := zpow_le_one_of_nonpos₀ (by norm_num) he
      have hpos : (0 : ℚ) < (2 : ℚ) ^ e := zpow_pos two_pos e
      have habs : (n : ℚ) ≤ (m.natAbs : ℚ) := by
        rw [h, Nat.cast_natAbs, Int.cast_abs]
        calc (m : ℚ) * (2 : ℚ) ^ e ≤ |(m : ℚ)| * (2 : ℚ) ^ e :=
              mul_le_mul_of_nonneg_right (le_abs_self _) hpos.le
          _ ≤ |(m : ℚ)| := mul_le_of_le_one_right (abs_nonneg _) hpow
      exact Nat.lt_of_le_of_lt (by exact_mod_cast habs) hm
    have hzero : excess n = 0 := by
      unfold excess
      rcases Nat.eq_zero_or_pos n with rfl | hn
      · rfl
      · have hlog := (Nat.log2_lt hn.ne').mpr hle
        omega
    rw [hzero]
    exact one_dvd n
  · obtain ⟨k, rfl⟩ := Int.eq_ofNat_of_zero_le he.le
    have hn : (n : ℤ) = m * 2 ^ k := by
      rw [zpow_natCast] at h
      exact_mod_cast h
    have hnat : n = m.natAbs * 2 ^ k := by
      have := congrArg Int.natAbs hn
      rwa [Int.natAbs_natCast, Int.natAbs_mul, Int.natAbs_pow] at this
    have hexcess : excess n ≤ k := by
      unfold excess
      rcases Nat.eq_zero_or_pos n with rfl | hpos
      · exact Nat.zero_le _
      · have hlt : n < 2 ^ (53 + k) := by
          rw [hnat, Nat.pow_add]
          exact Nat.mul_lt_mul_of_pos_right hm (Nat.two_pow_pos k)
        have hlog := (Nat.log2_lt hpos.ne').mpr hlt
        omega
    exact (Nat.pow_dvd_pow 2 hexcess).trans ⟨m.natAbs, by rw [Nat.mul_comm, ← hnat]⟩

/-! ### Conversions -/

theorem natAbs_sign_le (i : ℤ) : i.sign.natAbs ≤ 1 := by
  rcases lt_trichotomy i 0 with hi | rfl | hi
  · rw [Int.sign_eq_neg_one_of_neg hi]
    decide
  · decide
  · rw [Int.sign_eq_one_of_pos hi]
    decide

/-- `static_cast<double>`, for an integer of no more than 64 digits. -/
def ofInt (i : ℤ) (h : i.natAbs ≤ 2 ^ 64) : Binary64 where
  val := ((i.sign * (roundNat i.natAbs : ℤ) : ℤ) : ℚ)
  finite := by
    have hexcess : excess i.natAbs ≤ 12 := by
      have hlog : i.natAbs.log2 ≤ 64 := by
        rcases Nat.eq_zero_or_pos i.natAbs with h0 | hpos
        · rw [h0]
          decide
        · exact Nat.lt_succ_iff.mp ((Nat.log2_lt hpos.ne').mpr
            (Nat.lt_of_le_of_lt h (by decide)))
      unfold excess
      omega
    rcases (kept_le i.natAbs).lt_or_eq with hkept | hkept
    · refine ⟨i.sign * kept i.natAbs, excess i.natAbs, ?_, by omega, by omega, ?_⟩
      · rw [Int.natAbs_mul, Int.natAbs_natCast]
        exact Nat.lt_of_le_of_lt (Nat.mul_le_mul_right _ (natAbs_sign_le i)) (by rwa [Nat.one_mul])
      · rw [roundNat, zpow_natCast]
        push_cast
        ring
    · -- one digit more, and a zero less
      refine ⟨i.sign, 53 + excess i.natAbs, ?_, by omega, by omega, ?_⟩
      · exact Nat.lt_of_le_of_lt (natAbs_sign_le i) (by decide)
      · rw [roundNat, hkept, zpow_add₀ two_ne_zero, zpow_natCast]
        push_cast
        norm_num

theorem val_ofInt (i : ℤ) (h : i.natAbs ≤ 2 ^ 64) :
    (ofInt i h).val = ((i.sign * (roundNat i.natAbs : ℤ) : ℤ) : ℚ) := rfl

/-- **An integer in double precision** is not rounded. -/
theorem ofInt_val {i : ℤ} (h : i.natAbs ≤ 2 ^ 64) {x : Binary64} (hx : x.val = i) :
    ofInt i h = x := by
  obtain ⟨m, e, hm, -, -, hval⟩ := x.finite
  refine Binary64.ext ?_
  have hnat : ((i.natAbs : ℕ) : ℚ) = ((i.sign * m : ℤ) : ℚ) * (2 : ℚ) ^ e := by
    have hself : (i.natAbs : ℤ) = i.sign * i := (Int.sign_mul_self_eq_natAbs i).symm
    have hcast : ((i.natAbs : ℕ) : ℚ) = ((i.natAbs : ℤ) : ℚ) := (Int.cast_natCast _).symm
    rw [hcast, hself, Int.cast_mul, ← hx, hval, Int.cast_mul]
    ring
  have hm' : (i.sign * m).natAbs < 2 ^ 53 := by
    rw [Int.natAbs_mul]
    exact Nat.lt_of_le_of_lt (Nat.mul_le_mul_right _ (natAbs_sign_le i)) (by rwa [Nat.one_mul])
  rw [val_ofInt, roundNat_of_dvd (dvd_of_finite hm' hnat), Int.sign_mul_natAbs, hx]

/-- **No more than 53 digits** are rounded to themselves. -/
theorem val_ofInt_of_le {i : ℤ} (h : i.natAbs ≤ 2 ^ 64) (hle : i.natAbs ≤ 2 ^ 53) :
    (ofInt i h).val = i := by
  have hfinite : ∃ (m e : ℤ), m.natAbs < 2 ^ 53 ∧ -1074 ≤ e ∧ e ≤ 971 ∧
      (i : ℚ) = m * (2 : ℚ) ^ e := by
    rcases hle.lt_or_eq with hlt | heq
    · exact ⟨i, 0, hlt, by omega, by omega, by rw [zpow_zero, mul_one]⟩
    · refine ⟨i.sign, 53, Nat.lt_of_le_of_lt (natAbs_sign_le i) (by decide), by omega, by omega, ?_⟩
      have hself : i = i.sign * 2 ^ 53 := by
        have hsign := Int.sign_mul_natAbs i
        rw [heq] at hsign
        exact_mod_cast hsign.symm
      exact_mod_cast congrArg (Int.cast (R := ℚ)) hself
  rw [ofInt_val h (x := ⟨i, hfinite⟩) rfl]

end Binary64

/-- `static_cast<double>`, for an `int64_t`. -/
def Int64.toBinary64 (i : Int64) : Binary64 :=
  Binary64.ofInt i.toInt (by
    have hlt := i.toInt_lt
    have hge := i.le_toInt
    omega)

/-- `static_cast<double>`, for a `uint64_t`. -/
def UInt64.toBinary64 (u : UInt64) : Binary64 :=
  Binary64.ofInt u.toNat (by
    have hlt := u.toNat_lt
    omega)
