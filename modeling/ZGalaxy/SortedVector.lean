/-
ZGalaxy/SortedVector.lean

Vectors kept in order: searching by halves, and compaction in place.

A vector is split by a predicate when a part where it holds is followed by one where it does not.
`lowerBound` finds the place of the split by halving, which is right only because the vector is
split.  `compact` is the loop with a reader and a writer that moves the elements to keep to the
front; what stands behind the writer is left over and cut off afterwards.

Main results:

  `lowerBound_append`: the search finds the place of the split.
  `compact_eq`: the elements in front of the writer are those to keep, in their order.
-/
import Mathlib.Data.List.Basic
import Mathlib.Tactic.Linarith

namespace SortedVector

variable {α : Type*}

/-! ### Searching by halves -/

/-- The loop of the search: the place is among the `count` elements from `first` on, or right behind
them. -/
def search (p : α → Bool) (v : List α) : (fuel first count : ℕ) → ℕ
  | 0, first, _ => first
  | fuel + 1, first, count =>
      if count = 0 then first
      else if (v[first + count / 2]?).any p then
        search p v fuel (first + count / 2 + 1) (count - (count / 2 + 1))
      else search p v fuel first (count / 2)

/-- `std::lower_bound`: the first place where the predicate does not hold. -/
def lowerBound (p : α → Bool) (v : List α) : ℕ := search p v v.length 0 v.length

/-- The search keeps the place of the split between its bounds, and each turn shrinks them. -/
theorem search_append {p : α → Bool} {l₁ l₂ : List α} (h₁ : ∀ x ∈ l₁, p x = true)
    (h₂ : ∀ x ∈ l₂, p x = false) {fuel first count : ℕ} (hfuel : count ≤ fuel)
    (hfirst : first ≤ l₁.length) (hlast : l₁.length ≤ first + count)
    (hlength : first + count ≤ (l₁ ++ l₂).length) :
    search p (l₁ ++ l₂) fuel first count = l₁.length := by
  induction fuel generalizing first count with
  | zero =>
      show first = l₁.length
      omega
  | succ fuel ih =>
      rw [search]
      by_cases hcount : count = 0
      · rw [if_pos hcount]
        omega
      · rw [if_neg hcount]
        have hmid : first + count / 2 < (l₁ ++ l₂).length := by omega
        rw [List.getElem?_eq_getElem hmid, Option.any_some]
        by_cases hside : first + count / 2 < l₁.length
        · -- the middle is in front of the split
          have hp : p (l₁ ++ l₂)[first + count / 2] = true := by
            rw [List.getElem_append_left hside]
            exact h₁ _ (List.getElem_mem hside)
          rw [if_pos hp]
          exact ih (by omega) (by omega) (by omega) (by omega)
        · -- the middle is behind it
          have hp : p (l₁ ++ l₂)[first + count / 2] = false := by
            rw [List.getElem_append_right (by omega)]
            exact h₂ _ (List.getElem_mem _)
          rw [hp, if_neg Bool.false_ne_true]
          exact ih (by omega) (by omega) (by omega) (by omega)

/-- **The search finds the split.** -/
theorem lowerBound_append {p : α → Bool} {l₁ l₂ : List α} (h₁ : ∀ x ∈ l₁, p x = true)
    (h₂ : ∀ x ∈ l₂, p x = false) : lowerBound p (l₁ ++ l₂) = l₁.length := by
  refine search_append h₁ h₂ le_rfl (Nat.zero_le _) ?_ (by rw [Nat.zero_add])
  rw [List.length_append]
  omega

/-- **A sorted vector is split** by being below something: what `lowerBound` finds divides it. -/
theorem split_of_pairwise {r : α → α → Prop} {p : α → Bool} {v : List α} (hv : v.Pairwise r)
    (hp : ∀ x y, r x y → p y = true → p x = true) :
    ∃ l₁ l₂, v = l₁ ++ l₂ ∧ (∀ x ∈ l₁, p x = true) ∧ (∀ x ∈ l₂, p x = false) := by
  induction v with
  | nil => exact ⟨[], [], rfl, fun x hx => absurd hx List.not_mem_nil,
      fun x hx => absurd hx List.not_mem_nil⟩
  | cons x v ih =>
      obtain ⟨hx, hrest⟩ := List.pairwise_cons.mp hv
      rcases hpx : p x with - | -
      · -- nothing behind the first that fails can hold
        refine ⟨[], x :: v, rfl, fun y hy => absurd hy List.not_mem_nil, ?_⟩
        intro y hy
        rcases List.mem_cons.mp hy with rfl | hy
        · exact hpx
        · rw [Bool.eq_false_iff]
          intro hpy
          rw [hp x y (hx y hy) hpy] at hpx
          cases hpx
      · obtain ⟨l₁, l₂, rfl, h₁, h₂⟩ := ih hrest
        refine ⟨x :: l₁, l₂, rfl, ?_, h₂⟩
        intro y hy
        rcases List.mem_cons.mp hy with rfl | hy
        · exact hpx
        · exact h₁ y hy

/-- What is inserted at the place of the split stands between the two parts. -/
theorem insertIdx_append (l₁ l₂ : List α) (x : α) :
    (l₁ ++ l₂).insertIdx l₁.length x = l₁ ++ x :: l₂ := by
  induction l₁ with
  | nil => rfl
  | cons y l₁ ih => exact congrArg (List.cons y) ih

/-! ### Compaction in place -/

/-- The loop of a compaction, with `n` elements still to be read, and how many were written. -/
def compactFrom (p : α → Bool) : (n reader writer : ℕ) → List α → List α × ℕ
  | 0, _, writer, v => (v, writer)
  | n + 1, reader, writer, v =>
      (v[reader]?).elim (v, writer) fun x =>
        if p x then compactFrom p n (reader + 1) (writer + 1) (v.set writer x)
        else compactFrom p n (reader + 1) writer v

/-- The elements to keep are moved to the front, and counted. -/
def compact (p : α → Bool) (v : List α) : List α × ℕ := compactFrom p v.length 0 0 v

/-- What is kept stands in front of the writer, what is left over between the writer and the
reader. -/
theorem compactFrom_eq (p : α → Bool) (kept left rest : List α) :
    ∃ left', compactFrom p rest.length (kept.length + left.length) kept.length
      (kept ++ left ++ rest) =
        (kept ++ rest.filter p ++ left', (kept ++ rest.filter p).length) := by
  induction rest generalizing kept left with
  | nil => exact ⟨left, by rw [List.append_nil, List.filter_nil, List.append_nil]; rfl⟩
  | cons x rest ih =>
      have hget : (kept ++ left ++ x :: rest)[kept.length + left.length]? = some x := by
        rw [← List.length_append, List.getElem?_append_right le_rfl, Nat.sub_self]
        rfl
      rw [List.length_cons, compactFrom, hget, Option.elim_some]
      rcases hp : p x with - | -
      · -- what is not kept is left over
        obtain ⟨left', ih⟩ := ih kept (left ++ [x])
        refine ⟨left', ?_⟩
        rw [if_neg Bool.false_ne_true,
          List.filter_cons_of_neg (by rw [hp]; exact Bool.false_ne_true),
          ← ih]
        simp only [List.length_append, List.length_singleton, List.append_assoc,
          List.singleton_append, Nat.add_assoc]
      · rw [if_pos rfl, List.filter_cons_of_pos hp]
        rcases left with - | ⟨y, left⟩
        · -- reader and writer stand at the same place
          obtain ⟨left', ih⟩ := ih (kept ++ [x]) []
          refine ⟨left', ?_⟩
          have hset : (kept ++ [] ++ x :: rest).set kept.length x = kept ++ [x] ++ [] ++ rest := by
            simp
          rw [hset]
          simpa using ih
        · -- the first element left over gives way
          obtain ⟨left', ih⟩ := ih (kept ++ [x]) (left ++ [x])
          refine ⟨left', ?_⟩
          have hset : (kept ++ y :: left ++ x :: rest).set kept.length x =
              kept ++ [x] ++ (left ++ [x]) ++ rest := by
            simp
          rw [hset]
          simpa [Nat.add_assoc, Nat.add_comm, Nat.add_left_comm] using ih

/-- **Compaction keeps what is to be kept**, in its order. -/
theorem compact_eq (p : α → Bool) (v : List α) :
    (compact p v).1.take (compact p v).2 = v.filter p ∧
      (compact p v).2 = (v.filter p).length := by
  obtain ⟨left', h⟩ := compactFrom_eq p [] [] v
  have hv : compact p v = (v.filter p ++ left', (v.filter p).length) := h
  rw [hv]
  exact ⟨List.take_left, rfl⟩

end SortedVector
