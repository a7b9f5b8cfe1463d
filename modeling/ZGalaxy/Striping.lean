/-
ZGalaxy/Striping.lean

Sequences that give out the values of a list in turn, each of them a number of times.

After a first stripe, of any length, the sequence consists of stripes of length `N`, the values of
which go around the list.  Such a sequence with more than one value never gives out one value more
than `N` times in a row.

Main results: `length_eq_one_of_windows`, that a sequence with rows of `N + 1` equal values from
anywhere on is striped over one value only; and `striped_singleton_iff`, that this means to be
constant after the first stripe.
-/
import Mathlib.Data.List.Nodup
import Mathlib.Data.Nat.ModEq

namespace Striping

variable {α : Type*} {N : ℕ} {vals : List α} {out : ℕ → α}

/-- After a first stripe the sequence gives out the values in turn, each of them `N` times. -/
def Striped (N : ℕ) (vals : List α) (out : ℕ → α) : Prop :=
  ∃ m e, e < vals.length ∧ (∀ k < m, out k = out 0) ∧
    ∀ t, ∀ r < N, vals[(e + t) % vals.length]? = some (out (m + t * N + r))

/-- There are rows of `N + 1` equal values, from anywhere on. -/
def Windows (N : ℕ) (out : ℕ → α) : Prop := ∀ m, ∃ k ≥ m, ∀ r ≤ N, out (k + r) = out k

/-- The next place of a list is another one, unless there is only one. -/
theorem length_eq_one_of_mod_eq {n a : ℕ} (h : a % n = (a + 1) % n) : n = 1 := by
  have hmod : a ≡ a + 1 [MOD n] := h
  have hdvd := (Nat.modEq_iff_dvd' (Nat.le_succ a)).mp hmod
  have hone : a.succ - a = 1 := by omega
  rw [hone] at hdvd
  exact Nat.dvd_one.mp hdvd

/-- **Rows that are too long** leave only one value. -/
theorem length_eq_one_of_windows (hnodup : vals.Nodup) (hN : 0 < N) (hwindows : Windows N out)
    (h : Striped N vals out) : vals.length = 1 := by
  obtain ⟨m, e, he, -, hstripes⟩ := h
  have hlength : 0 < vals.length := Nat.zero_lt_of_lt he
  obtain ⟨k, hk, hequal⟩ := hwindows m
  -- the stripe that the row begins in, and the first place of the next one
  have hdiv : (k - m) / N * N + (k - m) % N = k - m := Nat.div_add_mod' (k - m) N
  have hmod : (k - m) % N < N := Nat.mod_lt _ hN
  have hfirst := hstripes ((k - m) / N) ((k - m) % N) hmod
  have hnext := hstripes ((k - m) / N + 1) 0 hN
  rw [Nat.add_assoc, hdiv, Nat.add_sub_cancel' hk] at hfirst
  have hplace : m + ((k - m) / N + 1) * N + 0 = k + (N - (k - m) % N) := by
    rw [Nat.succ_mul]
    omega
  rw [hplace, hequal _ (Nat.sub_le _ _), ← hfirst, ← Nat.add_assoc] at hnext
  have hplaces := (List.getElem?_inj (Nat.mod_lt _ hlength) hnodup).mp hnext
  exact length_eq_one_of_mod_eq hplaces.symm

/-- **Striped over one value**: constant after the first stripe. -/
theorem striped_singleton_iff (hN : 0 < N) (v : α) : Striped N [v] out ↔
    ∃ m, (∀ k < m, out k = out 0) ∧ ∀ k ≥ m, out k = v := by
  constructor
  · rintro ⟨m, e, -, hfirst, hstripes⟩
    refine ⟨m, hfirst, fun k hk => ?_⟩
    have hdiv : (k - m) / N * N + (k - m) % N = k - m := Nat.div_add_mod' (k - m) N
    have hplace := hstripes ((k - m) / N) ((k - m) % N) (Nat.mod_lt _ hN)
    rw [Nat.add_assoc, hdiv, Nat.add_sub_cancel' hk, List.length_singleton, Nat.mod_one] at hplace
    exact (Option.some.inj hplace).symm
  · rintro ⟨m, hfirst, hconst⟩
    refine ⟨m, 0, Nat.one_pos, hfirst, fun t r _ => ?_⟩
    rw [hconst _ (by omega), List.length_singleton, Nat.mod_one]
    rfl

end Striping
