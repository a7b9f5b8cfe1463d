/-
ZGalaxy/Coverage.lean

Counting as coverage.

Parts that are pairwise disjoint and lie in a finite set cover it exactly when their
sizes add up to its size.  The parts are the values of a function `f` on the members
of a list, so that what covers an element is found in the list.

Main results:

  `sum_card_le`: the sizes add up to no more than that of the set.
  `exists_mem_of_sum_card_eq`: when they add up to it, every element is covered.
-/
import Mathlib

namespace Coverage

variable {ι α : Type*} [DecidableEq α]

/-- What the parts cover together. -/
def union (f : ι → Finset α) (l : List ι) : Finset α :=
  l.foldr (fun i s => f i ∪ s) ∅

variable {f : ι → Finset α} {l : List ι} {s : Finset α}

@[simp] theorem union_nil : union f [] = ∅ := rfl

@[simp] theorem union_cons (i : ι) : union f (i :: l) = f i ∪ union f l := rfl

theorem mem_union {a : α} : a ∈ union f l ↔ ∃ i ∈ l, a ∈ f i := by
  induction l with
  | nil => simp
  | cons i l ih => simp [ih]

theorem union_subset (h : ∀ i ∈ l, f i ⊆ s) : union f l ⊆ s := by
  intro a ha
  obtain ⟨i, hi, hai⟩ := mem_union.mp ha
  exact h i hi hai

/-- Disjoint parts cover as much as their sizes add up to. -/
theorem card_union (h : l.Pairwise fun i j => Disjoint (f i) (f j)) :
    (union f l).card = (l.map fun i => (f i).card).sum := by
  induction l with
  | nil => rfl
  | cons i l ih =>
      obtain ⟨hi, hl⟩ := List.pairwise_cons.mp h
      have hdisj : Disjoint (f i) (union f l) := by
        rw [Finset.disjoint_left]
        intro a hai ha
        obtain ⟨j, hj, haj⟩ := mem_union.mp ha
        exact Finset.disjoint_left.mp (hi j hj) hai haj
      rw [union_cons, Finset.card_union_of_disjoint hdisj, ih hl, List.map_cons, List.sum_cons]

theorem sum_card_le (h : l.Pairwise fun i j => Disjoint (f i) (f j)) (hs : ∀ i ∈ l, f i ⊆ s) :
    (l.map fun i => (f i).card).sum ≤ s.card := by
  rw [← card_union h]
  exact Finset.card_le_card (union_subset hs)

/-- **Counting is coverage**, for disjoint parts. -/
theorem exists_mem_of_sum_card_eq (h : l.Pairwise fun i j => Disjoint (f i) (f j))
    (hs : ∀ i ∈ l, f i ⊆ s) (hsum : (l.map fun i => (f i).card).sum = s.card) {a : α}
    (ha : a ∈ s) : ∃ i ∈ l, a ∈ f i := by
  have hall : union f l = s := by
    refine Finset.eq_of_subset_of_card_le (union_subset hs) ?_
    rw [card_union h, hsum]
  exact mem_union.mp (hall ▸ ha)

/-- Half-open intervals that do not meet. -/
theorem disjoint_Ico {a b c d : ℕ} (h : b ≤ c ∨ d ≤ a) :
    Disjoint (Finset.Ico a b) (Finset.Ico c d) := by
  rw [Finset.disjoint_left]
  intro k hk hk'
  rw [Finset.mem_Ico] at hk hk'
  omega

end Coverage
