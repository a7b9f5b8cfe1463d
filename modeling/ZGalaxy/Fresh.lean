/-
ZGalaxy/Fresh.lean

Appending to a list what it does not have yet.

`fresh l xs` are the members of `xs` that `l` lacks, each where it first occurs, so a loop that
pushes each `x` unless it is there turns `l` into `l ++ fresh l xs` (`foldl_push`).  All that `l`
counts for is what it has (`fresh_congr`), and taking the members with a property before or after
makes no difference (`filter_fresh`).

`fresh_eq_iff` answers when doing it once more, after only the members with a property were kept,
gives the same list.
-/
import Mathlib.Data.Finset.Card
import Mathlib.Data.List.Nodup

namespace Fresh

variable {α : Type*} [DecidableEq α]

/-- The members of `xs` that are not in `l`, in the order they first occur in. -/
def fresh (l : List α) : List α → List α
  | [] => []
  | x :: xs => if x ∈ l then fresh l xs else x :: fresh (l ++ [x]) xs

variable {l l' xs ys : List α} {x y : α} {p : α → Bool}

theorem fresh_cons_of_mem (h : x ∈ l) : fresh l (x :: xs) = fresh l xs := if_pos h

theorem fresh_cons_of_notMem (h : x ∉ l) : fresh l (x :: xs) = x :: fresh (l ++ [x]) xs := if_neg h

/-- **The loop that pushes what is not there.** -/
theorem foldl_push (l xs : List α) :
    xs.foldl (fun l x => if x ∈ l then l else l ++ [x]) l = l ++ fresh l xs := by
  induction xs generalizing l with
  | nil => exact (List.append_nil l).symm
  | cons x xs ih =>
      rw [List.foldl_cons, ih]
      by_cases h : x ∈ l
      · rw [if_pos h, fresh_cons_of_mem h]
      · rw [if_neg h, fresh_cons_of_notMem h, List.append_assoc, List.singleton_append]

theorem mem_fresh : y ∈ fresh l xs ↔ y ∈ xs ∧ y ∉ l := by
  induction xs generalizing l with
  | nil => exact ⟨fun h => absurd h List.not_mem_nil, fun h => absurd h.1 List.not_mem_nil⟩
  | cons x xs ih =>
      by_cases h : x ∈ l
      · rw [fresh_cons_of_mem h, ih, List.mem_cons]
        exact ⟨fun hy => ⟨Or.inr hy.1, hy.2⟩, fun hy => ⟨hy.1.resolve_left fun he =>
          hy.2 (he ▸ h), hy.2⟩⟩
      · rw [fresh_cons_of_notMem h, List.mem_cons, ih, List.mem_cons, List.mem_append,
          List.mem_singleton, not_or]
        constructor
        · rintro (rfl | ⟨hy, hyl, -⟩)
          · exact ⟨Or.inl rfl, h⟩
          · exact ⟨Or.inr hy, hyl⟩
        · rintro ⟨rfl | hy, hyl⟩
          · exact Or.inl rfl
          · by_cases hyx : y = x
            · exact Or.inl hyx
            · exact Or.inr ⟨hy, hyl, hyx⟩

theorem nodup_fresh (l xs : List α) : (fresh l xs).Nodup := by
  induction xs generalizing l with
  | nil => exact List.nodup_nil
  | cons x xs ih =>
      by_cases h : x ∈ l
      · rw [fresh_cons_of_mem h]
        exact ih l
      · rw [fresh_cons_of_notMem h, List.nodup_cons]
        refine ⟨fun hx => (mem_fresh.mp hx).2 ?_, ih _⟩
        exact List.mem_append_right l (List.mem_singleton_self x)

/-- How many they are. -/
theorem length_fresh (l xs : List α) :
    (fresh l xs).length = (xs.toFinset \ l.toFinset).card := by
  rw [← List.toFinset_card_of_nodup (nodup_fresh l xs)]
  congr 1
  ext x
  rw [List.mem_toFinset, mem_fresh, Finset.mem_sdiff, List.mem_toFinset, List.mem_toFinset]

/-- All that `l` counts for is which of `xs` it has. -/
theorem fresh_congr (h : ∀ x ∈ xs, x ∈ l ↔ x ∈ l') : fresh l xs = fresh l' xs := by
  induction xs generalizing l l' with
  | nil => rfl
  | cons x xs ih =>
      have hx := h x List.mem_cons_self
      have hxs : ∀ y ∈ xs, y ∈ l ↔ y ∈ l' := fun y hy => h y (List.mem_cons_of_mem x hy)
      by_cases hl : x ∈ l
      · rw [fresh_cons_of_mem hl, fresh_cons_of_mem (hx.mp hl)]
        exact ih hxs
      · rw [fresh_cons_of_notMem hl, fresh_cons_of_notMem fun hl' => hl (hx.mpr hl')]
        refine congrArg (List.cons x) (ih fun y hy => ?_)
        rw [List.mem_append, List.mem_append, hxs y hy]

/-- The members with a property, taken before or after. -/
theorem filter_fresh (p : α → Bool) (l xs : List α) :
    (fresh l xs).filter p = fresh l (xs.filter p) := by
  induction xs generalizing l with
  | nil => rfl
  | cons x xs ih =>
      by_cases hp : p x = true
      · rw [List.filter_cons_of_pos hp]
        by_cases h : x ∈ l
        · rw [fresh_cons_of_mem h, fresh_cons_of_mem h, ih]
        · rw [fresh_cons_of_notMem h, fresh_cons_of_notMem h, List.filter_cons_of_pos hp, ih]
      · rw [List.filter_cons_of_neg hp]
        by_cases h : x ∈ l
        · rw [fresh_cons_of_mem h, ih]
        · rw [fresh_cons_of_notMem h, List.filter_cons_of_neg hp, ih]
          refine fresh_congr fun y hy => ?_
          -- what was dropped is none of those that are kept
          have hyx : y ≠ x := by
            rintro rfl
            exact hp (List.mem_filter.mp hy).2
          rw [List.mem_append, List.mem_singleton, or_iff_left hyx]

theorem fresh_eq_nil_iff : fresh l xs = [] ↔ ∀ x ∈ xs, x ∈ l := by
  rw [List.eq_nil_iff_forall_not_mem]
  refine forall_congr' fun x => ?_
  rw [mem_fresh, not_and, not_not]

/-! ### Once more -/

/-- Those with the property come first among the new ones. -/
def First (p : α → Bool) (l xs : List α) : Prop :=
  ∀ u x v, xs = u ++ x :: v → p x → x ∉ l → x ∉ u → ∀ y ∈ u, y ∉ l → p y

omit [DecidableEq α] in
theorem first_cons_of_mem (h : x ∈ l) : First p l (x :: xs) ↔ First p l xs := by
  constructor
  · intro hfirst u y v hxs hp hl hu z hz hzl
    refine hfirst (x :: u) y v (by rw [hxs, List.cons_append]) hp hl ?_ z
      (List.mem_cons_of_mem x hz) hzl
    rw [List.mem_cons, not_or]
    exact ⟨fun he => hl (he ▸ h), hu⟩
  · intro hfirst u y v hxs hp hl hu z hz hzl
    rcases u with - | ⟨x', u⟩
    · cases hz
    obtain ⟨rfl, rfl⟩ := List.cons.inj hxs
    rw [List.mem_cons, not_or] at hu
    rcases List.mem_cons.mp hz with rfl | hz
    · exact absurd h hzl
    · exact hfirst u y v rfl hp hl hu.2 z hz hzl

theorem first_cons_of_pos (h : x ∉ l) (hp : p x = true) :
    First p l (x :: xs) ↔ First p (l ++ [x]) xs := by
  constructor
  · intro hfirst u y v hxs hy hl hu z hz hzl
    rw [List.mem_append, List.mem_singleton, not_or] at hl hzl
    refine hfirst (x :: u) y v (by rw [hxs, List.cons_append]) hy hl.1 ?_ z
      (List.mem_cons_of_mem x hz) hzl.1
    rw [List.mem_cons, not_or]
    exact ⟨hl.2, hu⟩
  · intro hfirst u y v hxs hy hl hu z hz hzl
    rcases u with - | ⟨x', u⟩
    · cases hz
    obtain ⟨rfl, rfl⟩ := List.cons.inj hxs
    rw [List.mem_cons, not_or] at hu
    rcases List.mem_cons.mp hz with rfl | hz
    · exact hp
    by_cases hzx : z = x
    · rw [hzx]
      exact hp
    · refine hfirst u y v rfl hy ?_ hu.2 z hz ?_
      · rw [List.mem_append, List.mem_singleton, not_or]
        exact ⟨hl, hu.1⟩
      · rw [List.mem_append, List.mem_singleton, not_or]
        exact ⟨hzl, hzx⟩

theorem first_cons_of_neg (h : x ∉ l) (hp : ¬p x = true) :
    First p l (x :: xs) ↔ ∀ y ∈ xs, p y → y ∈ l := by
  constructor
  · intro hfirst y hy hpy
    by_contra hl
    -- where it first occurs
    obtain ⟨u, v, hxs, hu⟩ := List.eq_append_cons_of_mem hy
    refine hp (hfirst (x :: u) y v (by rw [hxs, List.cons_append]) hpy hl ?_ x List.mem_cons_self h)
    rw [List.mem_cons, not_or]
    exact ⟨fun he => hp (he ▸ hpy), hu⟩
  · intro hall u y v hxs hy hl hu z hz hzl
    rcases u with - | ⟨x', u⟩
    · cases hz
    obtain ⟨rfl, rfl⟩ := List.cons.inj hxs
    exact absurd (hall y (List.mem_append_right u List.mem_cons_self) hy) hl

/-- Those with the property come first exactly when moving them to the front changes nothing. -/
theorem first_iff : (fresh l xs).filter p ++ (fresh l xs).filter (fun x => !p x) = fresh l xs ↔
    First p l xs := by
  induction xs generalizing l with
  | nil => exact iff_of_true rfl fun u x v h => absurd h (by simp)
  | cons x xs ih =>
      by_cases h : x ∈ l
      · rw [fresh_cons_of_mem h, first_cons_of_mem h, ih]
      rw [fresh_cons_of_notMem h]
      by_cases hp : p x = true
      · rw [first_cons_of_pos h hp, List.filter_cons_of_pos hp,
          List.filter_cons_of_neg (by rw [hp]; decide), List.cons_append, List.cons_inj_right, ih]
      · rw [first_cons_of_neg h hp, List.filter_cons_of_neg hp,
          List.filter_cons_of_pos (by rw [Bool.not_eq_true] at hp; rw [hp]; decide)]
        rcases hnew : (fresh (l ++ [x]) xs).filter p with - | ⟨z, zs⟩
        · -- there is none with the property
          have hnone : ∀ y ∈ fresh (l ++ [x]) xs, ¬p y = true := List.filter_eq_nil_iff.mp hnew
          refine iff_of_true (congrArg (List.cons x) (List.filter_eq_self.mpr fun y hy => ?_)) ?_
          · rw [Bool.not_eq_true _ |>.mp (hnone y hy)]
            rfl
          · intro y hy hpy
            by_contra hl
            refine hnone y (mem_fresh.mpr ⟨hy, ?_⟩) hpy
            rw [List.mem_append, List.mem_singleton, not_or]
            exact ⟨hl, fun he => hp (he ▸ hpy)⟩
        · -- one with it would stand before `x`
          obtain ⟨hz, hpz⟩ := List.mem_filter.mp (hnew ▸ List.mem_cons_self : z ∈ _)
          obtain ⟨hzxs, hzl⟩ := mem_fresh.mp hz
          refine iff_of_false (fun heq => hp ((List.cons.inj heq).1 ▸ hpz)) fun hall => hzl ?_
          exact List.mem_append_left _ (hall z hzxs hpz)

/-- **When doing it once more gives the same list**: `l` all has the property, of what was new only
those with the property were kept, and `ys` instead of `xs` comes after them. -/
theorem fresh_eq_iff (hl : ∀ x ∈ l, p x) :
    (fresh l xs).filter p ++ fresh (l ++ (fresh l xs).filter p) ys = fresh l xs ↔
      First p l xs ∧ (∀ y ∈ ys, p y → y ∈ l ∨ y ∈ xs) ∧
        fresh [] (ys.filter fun x => !p x) = fresh [] (xs.filter fun x => !p x) := by
  have hmem : ∀ y, y ∈ l ++ (fresh l xs).filter p ↔ y ∈ l ∨ y ∈ xs ∧ p y := by
    intro y
    rw [List.mem_append, List.mem_filter, mem_fresh]
    constructor
    · rintro (hy | ⟨⟨hy, -⟩, hp⟩)
      · exact Or.inl hy
      · exact Or.inr ⟨hy, hp⟩
    · rintro (hy | ⟨hy, hp⟩)
      · exact Or.inl hy
      · by_cases hyl : y ∈ l
        · exact Or.inl hyl
        · exact Or.inr ⟨⟨hy, hyl⟩, hp⟩
  -- without the property nothing is in `l`
  have hrest : ∀ zs : List α, ∀ m : List α, (∀ y ∈ m, p y) →
      (fresh m zs).filter (fun x => !p x) = fresh [] (zs.filter fun x => !p x) := by
    intro zs m hm
    rw [filter_fresh]
    refine fresh_congr fun y hy => iff_of_false (fun hym => ?_) List.not_mem_nil
    have hnp := (List.mem_filter.mp hy).2
    rw [hm y hym] at hnp
    exact absurd hnp (by decide)
  have hm : ∀ y ∈ l ++ (fresh l xs).filter p, p y := by
    intro y hy
    rcases (hmem y).mp hy with hyl | hyp
    · exact hl y hyl
    · exact hyp.2
  have hxs := hrest xs l hl
  have hys := hrest ys _ hm
  set kept := (fresh l xs).filter p with hkept
  set again := fresh (l ++ kept) ys with hagain
  have hself : (∀ y ∈ again, ¬p y = true) → again.filter (fun x => !p x) = again := by
    intro h
    refine List.filter_eq_self.mpr fun y hy => ?_
    rw [Bool.not_eq_true _ |>.mp (h y hy)]
    rfl
  constructor
  · intro h
    have hpos := congrArg (List.filter p) h
    rw [List.filter_append, hkept, List.filter_filter, ← hkept] at hpos
    simp only [Bool.and_self] at hpos
    rw [← hkept, List.append_right_eq_self] at hpos
    have hnone : ∀ y ∈ again, ¬p y = true := List.filter_eq_nil_iff.mp hpos
    have hneg := congrArg (List.filter fun x => !p x) h
    rw [List.filter_append, hkept, List.filter_filter] at hneg
    simp only [Bool.not_and_self, List.filter_false, List.nil_append] at hneg
    refine ⟨first_iff.mp ?_, fun y hy hpy => ?_, by rw [← hys, ← hxs, hneg]⟩
    · rw [← hneg, hself hnone, ← hkept]
      exact h
    · by_contra hout
      rw [not_or] at hout
      refine hnone y (mem_fresh.mpr ⟨hy, fun hym => ?_⟩) hpy
      rcases (hmem y).mp hym with hyl | hyp
      · exact hout.1 hyl
      · exact hout.2 hyp.1
  · rintro ⟨hfirst, hknown, hsame⟩
    have hnone : ∀ y ∈ again, ¬p y = true := by
      intro y hy hpy
      obtain ⟨hyys, hym⟩ := mem_fresh.mp hy
      refine hym ((hmem y).mpr ?_)
      rcases hknown y hyys hpy with hyl | hyxs
      · exact Or.inl hyl
      · exact Or.inr ⟨hyxs, hpy⟩
    rw [← hself hnone, hys, hsame, ← hxs]
    exact first_iff.mpr hfirst

end Fresh
