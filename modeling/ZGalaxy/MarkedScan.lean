/-
ZGalaxy/MarkedScan.lean

Looking for the oldest element of a row with a mark that is not its age.

A scan keeps the last element that was older than the mark, and the mark of that element.  If the
mark were the age this would find an element of greatest age.  Here the mark is what is left of some
number `N` when the age is taken off, but for early elements, which are older than `N` and whose
mark nothing exceeds (`Marks`).

Main result: `chosen_max_iff`, which elements must stand before and behind one of greatest age if
the scan is to find one.
-/
import Mathlib.Data.List.Induction

namespace MarkedScan

variable {α : Type*} (age mark : α → ℕ)

/-! ### The scan -/

/-- One element is looked at. -/
def step (s : ℕ × Option α) (x : α) : ℕ × Option α :=
  if s.1 < age x then (mark x, some x) else s

/-- The mark and the element that are kept in the end. -/
def scan (l : List α) : ℕ × Option α := l.foldl (step age mark) (0, none)

/-- What the marks are: of a late element what its age leaves of `N`, and of an early one no less
than any age. -/
structure Marks (late : α → Prop) (N : ℕ) (l : List α) : Prop where
  ofLate : ∀ x ∈ l, late x → age x ≤ N ∧ mark x = N - age x
  ofEarly : ∀ x ∈ l, ¬late x → (age x = 0 ∨ N < age x) ∧ ∀ y ∈ l, age y ≤ mark x

/-- The first element with an age. -/
def firstAged (l : List α) : Option α := l.find? fun x => decide (0 < age x)

/-- What stands before and behind the element that is kept. -/
structure Chosen (late : α → Prop) (before : List α) (c : α) (after : List α) : Prop where
  pos : 0 < age c
  kept : ∀ x ∈ after, age x ≤ mark c
  allLate : ∀ x ∈ before, 0 < age x → late x
  first : ∀ f, firstAged age before = some f → ∃ x ∈ before ++ c :: after, mark f < age x
  beaten : ∀ x ∈ before, 0 < age x → ∃ p ∈ before, 0 < age p ∧ mark p < age c

/-- An element of greatest age is found: what stands behind it is no older than its mark, what
stands before it is late, and the first aged one before it has a lesser mark. -/
structure Found (late : α → Prop) (before : List α) (e : α) (after : List α) : Prop where
  kept : ∀ x ∈ after, age x ≤ mark e
  allLate : ∀ x ∈ before, 0 < age x → late x
  first : ∀ f, firstAged age before = some f → mark f < age e

variable {age mark} {late : α → Prop} {N : ℕ} {l L : List α}

theorem scan_concat (l : List α) (x : α) :
    scan age mark (l ++ [x]) = step age mark (scan age mark l) x := by
  unfold scan
  rw [List.foldl_append]
  rfl

theorem firstAged_eq_none (h : ∀ x ∈ l, age x = 0) : firstAged age l = none := by
  unfold firstAged
  rw [List.find?_eq_none]
  intro x hx
  rw [h x hx]
  exact Bool.false_ne_true

theorem firstAged_append (l l' : List α) :
    firstAged age (l ++ l') = (firstAged age l).or (firstAged age l') := List.find?_append

theorem firstAged_cons_of_pos {c : α} (h : 0 < age c) (l : List α) :
    firstAged age (c :: l) = some c := List.find?_cons_of_pos (decide_eq_true h)

/-- An element takes the place of the one that was kept. -/
theorem Chosen.replace {before after : List α} {c x : α} (hmarks : Marks age mark late N L)
    (hmem : ∀ y ∈ before ++ c :: after, y ∈ L) (hx : x ∈ L)
    (h : Chosen age mark late before c after) (hbeats : mark c < age x) :
    Chosen age mark late (before ++ c :: after) x [] := by
  have hc : c ∈ L := hmem c (List.mem_append_right _ List.mem_cons_self)
  have hlate : late c := by
    by_contra hearly
    have hnone := (hmarks.ofEarly c hc hearly).2 x hx
    omega
  obtain ⟨hle, hmark⟩ := hmarks.ofLate c hc hlate
  refine ⟨Nat.zero_lt_of_lt hbeats, fun y hy => absurd hy List.not_mem_nil, ?_, ?_, ?_⟩
  · intro y hy hpos
    rcases List.mem_append.mp hy with hbefore | hrest
    · exact h.allLate y hbefore hpos
    · rcases List.mem_cons.mp hrest with rfl | hafter
      · exact hlate
      · -- an early element would have taken the place
        by_contra hearly
        have hkept := h.kept y hafter
        have hage := (hmarks.ofEarly y (hmem y hy) hearly).1
        omega
  · intro f hf
    rw [firstAged_append] at hf
    rcases hbefore : firstAged age before with - | f'
    · rw [hbefore, firstAged_cons_of_pos h.pos] at hf
      obtain rfl := Option.some.inj hf
      exact ⟨x, List.mem_append_right _ List.mem_cons_self, hbeats⟩
    · rw [hbefore] at hf
      obtain rfl := Option.some.inj hf
      obtain ⟨y, hy, hlt⟩ := h.first f' hbefore
      exact ⟨y, List.mem_append_left _ hy, hlt⟩
  · intro y hy hpos
    exact ⟨c, List.mem_append_right _ List.mem_cons_self, h.pos, hbeats⟩

/-- An element leaves the one that was kept in its place. -/
theorem Chosen.keep {before after : List α} {c x : α} (h : Chosen age mark late before c after)
    (hkept : age x ≤ mark c) : Chosen age mark late before c (after ++ [x]) := by
  refine ⟨h.pos, ?_, h.allLate, ?_, h.beaten⟩
  · intro y hy
    rcases List.mem_append.mp hy with hy | hy
    · exact h.kept y hy
    · rw [List.mem_singleton.mp hy]
      exact hkept
  · intro f hf
    obtain ⟨y, hy, hlt⟩ := h.first f hf
    refine ⟨y, ?_, hlt⟩
    rw [← List.cons_append, ← List.append_assoc]
    exact List.mem_append_left _ hy

/-- **What the scan keeps**: nothing if no element has an age, or a chosen element. -/
theorem scan_cases (hmarks : Marks age mark late N L) (l : List α) (hl : ∀ x ∈ l, x ∈ L) :
    (scan age mark l = (0, none) ∧ ∀ x ∈ l, age x = 0) ∨
      ∃ before c after, l = before ++ c :: after ∧ scan age mark l = (mark c, some c) ∧
        Chosen age mark late before c after := by
  -- on the list, the last element compared with what was chosen before it
  induction l using List.reverseRecOn with
  | nil => exact Or.inl ⟨rfl, fun x hx => absurd hx List.not_mem_nil⟩
  | append_singleton l x ih =>
      have hx : x ∈ L := hl x (List.mem_append_right _ List.mem_cons_self)
      rw [scan_concat]
      unfold step
      rcases ih fun y hy => hl y (List.mem_append_left _ hy) with ⟨hscan, hzero⟩ | hchosen
      · rw [hscan]
        by_cases hpos : 0 < age x
        · rw [if_pos hpos]
          refine Or.inr ⟨l, x, [], rfl, rfl, hpos, ?_, ?_, ?_, ?_⟩
          · exact fun y hy => absurd hy List.not_mem_nil
          · exact fun y hy hy' => absurd (hzero y hy) (Nat.ne_of_gt hy')
          · intro f hf
            rw [firstAged_eq_none hzero] at hf
            cases hf
          · exact fun y hy hy' => absurd (hzero y hy) (Nat.ne_of_gt hy')
        · rw [if_neg hpos]
          refine Or.inl ⟨rfl, fun y hy => ?_⟩
          rcases List.mem_append.mp hy with hy | hy
          · exact hzero y hy
          · rw [List.mem_singleton.mp hy]
            exact Nat.eq_zero_of_not_pos hpos
      · obtain ⟨before, c, after, rfl, hscan, hchosen⟩ := hchosen
        rw [hscan]
        right
        by_cases hbeats : mark c < age x
        · rw [if_pos hbeats]
          have hmem : ∀ y ∈ before ++ c :: after, y ∈ L :=
            fun y hy => hl y (List.mem_append_left _ hy)
          exact ⟨_, x, [], rfl, rfl, hchosen.replace hmarks hmem hx hbeats⟩
        · rw [if_neg hbeats]
          refine ⟨before, c, after ++ [x], ?_, rfl, hchosen.keep (Nat.le_of_not_lt hbeats)⟩
          rw [List.append_assoc, List.cons_append]

/-- What no element is older than stays. -/
theorem foldl_step_of_le {m : ℕ} (o : Option α) (h : ∀ x ∈ l, age x ≤ m) :
    l.foldl (step age mark) (m, o) = (m, o) := by
  induction l with
  | nil => rfl
  | cons x l ih =>
      have hx : ¬m < age x := Nat.not_lt.mpr (h x List.mem_cons_self)
      rw [List.foldl_cons, step, if_neg hx]
      exact ih fun y hy => h y (List.mem_cons_of_mem x hy)

/-! ### Finding a greatest one -/

/-- A greatest element is older than the mark that it meets. -/
theorem Found.beats {before after : List α} {e : α}
    (hmarks : Marks age mark late N (before ++ e :: after))
    (hmax : ∀ x ∈ before ++ e :: after, age x ≤ age e) (hpos : 0 < age e)
    (h : Found age mark late before e after) :
    (scan age mark before).1 < age e := by
  have hsub : ∀ x ∈ before, x ∈ before ++ e :: after := fun x hx => List.mem_append_left _ hx
  rcases scan_cases hmarks before hsub with ⟨hscan, -⟩ | ⟨b, c, a, rfl, hscan, hchosen⟩
  · rw [hscan]
    exact hpos
  · rw [hscan]
    have hc : c ∈ b ++ c :: a := List.mem_append_right _ List.mem_cons_self
    obtain ⟨hle, hmark⟩ := hmarks.ofLate c (hsub c hc) (h.allLate c hc hchosen.pos)
    show mark c < age e
    by_cases hearly : late e
    · rcases hfirst : firstAged age b with - | f
      · -- it is the first aged one
        refine h.first c ?_
        rw [firstAged_append, hfirst, firstAged_cons_of_pos hchosen.pos]
        rfl
      · obtain ⟨hf, hfpos⟩ : f ∈ b ∧ 0 < age f :=
          ⟨List.mem_of_find?_eq_some hfirst, of_decide_eq_true (List.find?_some hfirst :)⟩
        obtain ⟨p, hp, hppos, hlt⟩ := hchosen.beaten f hf hfpos
        have hp' : p ∈ b ++ c :: a := List.mem_append_left _ hp
        obtain ⟨hple, hpmark⟩ := hmarks.ofLate p (hsub p hp') (h.allLate p hp' hppos)
        have hpmax := hmax p (hsub p hp')
        omega
    · have hmem : e ∈ (b ++ c :: a) ++ e :: after := List.mem_append_right _ List.mem_cons_self
      have hage := (hmarks.ofEarly e hmem hearly).1
      omega

/-- **When the scan finds an element of greatest age.** -/
theorem chosen_max_iff (hmarks : Marks age mark late N l) {A : ℕ} (hmax : ∀ x ∈ l, age x ≤ A)
    (hpos : 0 < A) :
    (∃ c, (scan age mark l).2 = some c ∧ age c = A) ↔
      ∃ before e after, l = before ++ e :: after ∧ age e = A ∧
        Found age mark late before e after := by
  constructor
  · rintro ⟨c, hc, hage⟩
    rcases scan_cases hmarks l fun x hx => hx with ⟨hscan, -⟩ | ⟨before, c', after, rfl, hscan, h⟩
    · rw [hscan] at hc
      cases hc
    · rw [hscan] at hc
      obtain rfl := Option.some.inj hc
      refine ⟨before, c', after, rfl, hage, h.kept, h.allLate, fun f hf => ?_⟩
      obtain ⟨x, hx, hlt⟩ := h.first f hf
      exact Nat.lt_of_lt_of_le hlt (hage ▸ hmax x hx)
  · rintro ⟨before, e, after, rfl, rfl, h⟩
    have hbeats := h.beats hmarks hmax hpos
    refine ⟨e, ?_, rfl⟩
    unfold scan at hbeats ⊢
    rw [List.foldl_append, List.foldl_cons, step, if_pos hbeats, foldl_step_of_le _ h.kept]

end MarkedScan
