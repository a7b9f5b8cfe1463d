/-
ZGalaxy/SortedPrefix.lean

The first entries of a sorted map.

A table with room for `n` entries keeps the first ones of the map that is written into it.  It does
not matter when the rest is cut off (`take_set_take`), nor that the map is written anew from its
entries each time (`Sorted.foldl_set`).  What a map holds after another one is written into it is
said entry by entry (`Sorted.mem_foldl_set_iff`).

Main result: `Sorted.same_prefix_iff`, when a map begins like another whose keys it has: every entry
of its own has `n` entries of the other before it.
-/
import Mathlib.Data.List.Nodup
import Mathlib.Data.List.Perm.Subperm
import ZGalaxy.SortedMap

namespace SortedMap

variable {K V : Type*} [DecidableEq K] {lt : K → K → Bool} {d v : V} {k : K} {f : V → V}
  {l m : List (K × V)} {e : K × V}

/-- Keys are in a strict order, in which any two that are different can be compared. -/
structure StrictTotal {K : Type*} (lt : K → K → Bool) : Prop where
  irrefl : ∀ a, lt a a = false
  trans : ∀ a b c, lt a b = true → lt b c = true → lt a c = true
  total : ∀ a b, a ≠ b → lt a b = false → lt b a = true

omit [DecidableEq K] in
theorem StrictTotal.asymm (hlt : StrictTotal lt) {a b : K} (hab : lt a b = true) :
    ¬lt b a = true := by
  intro hba
  have hself := hlt.trans _ _ _ hab hba
  rw [hlt.irrefl] at hself
  cases hself

omit [DecidableEq K] in
theorem StrictTotal.ne (hlt : StrictTotal lt) {a b : K} (hab : lt a b = true) : a ≠ b := by
  rintro rfl
  exact hlt.asymm hab hab

omit [DecidableEq K] in
/-- Keys that are compared by a number of their own. -/
theorem StrictTotal.of_rank (rank : K → ℕ) (hinj : Function.Injective rank)
    (h : ∀ a b, lt a b = true ↔ rank a < rank b) : StrictTotal lt where
  irrefl a := Bool.eq_false_iff.mpr fun haa => Nat.lt_irrefl _ ((h a a).mp haa)
  trans a b c hab hbc := (h a c).mpr (Nat.lt_trans ((h a b).mp hab) ((h b c).mp hbc))
  total a b hne hab := by
    rcases Nat.lt_trichotomy (rank a) (rank b) with hlt | heq | hlt
    · rw [(h a b).mpr hlt] at hab
      cases hab
    · exact absurd (hinj heq) hne
    · exact (h b a).mpr hlt

/-! ### Cutting off -/

/-- Of the first entries after writing a key, those that were cut off before are none. -/
theorem take_modify_take (lt : K → K → Bool) (d : V) (k : K) (f : V → V) (n : ℕ)
    (l : List (K × V)) :
    (modify lt d k f (l.take n)).take n = (modify lt d k f l).take n := by
  induction l generalizing n with
  | nil => rw [List.take_nil]
  | cons e l ih =>
      rcases n with - | n
      · rw [List.take_zero, List.take_zero]
      · rw [List.take_succ_cons]
        unfold modify
        split_ifs
        · rw [List.take_succ_cons, List.take_succ_cons, List.take_take, Nat.min_self]
        · -- the new entry pushes out one more
          have hcut : e :: l.take n = (e :: l).take (n + 1) := List.take_succ_cons.symm
          rw [List.take_succ_cons, List.take_succ_cons, hcut, List.take_take,
            Nat.min_eq_left (Nat.le_succ n)]
        · rw [List.take_succ_cons, List.take_succ_cons, ih]

theorem take_set_take (lt : K → K → Bool) (k : K) (v : V) (n : ℕ) (l : List (K × V)) :
    (set lt k v (l.take n)).take n = (set lt k v l).take n := take_modify_take lt v k _ n l

/-! ### Writing -/

/-- A key past all others is written at the end. -/
theorem set_eq_append (hlt : StrictTotal lt) (h : ∀ e ∈ l, lt e.1 k = true) :
    set lt k v l = l ++ [(k, v)] := by
  induction l with
  | nil => rfl
  | cons e l ih =>
      have he := h e List.mem_cons_self
      unfold set modify
      rw [if_neg (hlt.ne he), if_neg (hlt.asymm he)]
      exact congrArg (e :: ·) (ih fun x hx => h x (List.mem_cons_of_mem _ hx))

/-- A map that is written entry by entry is the map it was. -/
theorem Sorted.foldl_set (hlt : StrictTotal lt) (h : Sorted lt (l ++ m)) :
    m.foldl (fun l e => SortedMap.set lt e.1 e.2 l) l = l ++ m := by
  induction m generalizing l with
  | nil => exact (List.append_nil l).symm
  | cons e m ih =>
      have he : ∀ x ∈ l, lt x.1 e.1 = true := fun x hx =>
        (List.pairwise_append.mp h).2.2 x hx e List.mem_cons_self
      rw [List.foldl_cons, set_eq_append hlt he, ih (by rwa [List.append_assoc])]
      exact List.append_assoc l [e] m

/-- Writing keeps the order, whatever is written. -/
theorem Sorted.modify (hlt : StrictTotal lt) (h : Sorted lt l) (d : V) (k : K) (f : V → V) :
    Sorted lt (SortedMap.modify lt d k f l) := by
  induction l with
  | nil => exact List.pairwise_singleton _ _
  | cons e l ih =>
      obtain ⟨he, hl⟩ := List.pairwise_cons.mp h
      unfold SortedMap.modify
      split_ifs with hk hbefore
      · exact List.pairwise_cons.mpr ⟨fun x hx => hk ▸ he x hx, hl⟩
      · refine List.pairwise_cons.mpr ⟨fun x hx => ?_, h⟩
        rcases List.mem_cons.mp hx with rfl | hx
        · exact hbefore
        · exact hlt.trans _ _ _ hbefore (he x hx)
      · refine List.pairwise_cons.mpr ⟨fun x hx => ?_, ih hl⟩
        rcases mem_modify hx with hx | ⟨hxk, -⟩
        · exact he x hx
        · rw [hxk]
          exact hlt.total _ _ (Ne.symm hk) (Bool.eq_false_iff.mpr hbefore)

/-- The keys after writing one. -/
theorem mem_keys_modify (lt : K → K → Bool) (d : V) (k k' : K) (f : V → V) (l : List (K × V)) :
    k' ∈ (modify lt d k f l).map Prod.fst ↔ k' = k ∨ k' ∈ l.map Prod.fst := by
  induction l with
  | nil =>
      rw [modify, List.map_singleton, List.mem_singleton, List.map_nil,
        or_iff_left List.not_mem_nil]
  | cons e l ih =>
      unfold modify
      split_ifs with hk
      · rw [List.map_cons, List.map_cons, List.mem_cons, List.mem_cons, hk, or_self_left]
      · rw [List.map_cons, List.mem_cons]
      · rw [List.map_cons, List.map_cons, List.mem_cons, List.mem_cons, ih, or_left_comm]

/-- **The entries after writing** a key: the one that is written, and those with other keys. -/
theorem Sorted.mem_set_iff (hlt : StrictTotal lt) (h : Sorted lt l) :
    e ∈ SortedMap.set lt k v l ↔ e = (k, v) ∨ e ∈ l ∧ e.1 ≠ k := by
  induction l with
  | nil => exact List.mem_singleton.trans (or_iff_left fun he => absurd he.1 List.not_mem_nil).symm
  | cons x l ih =>
      obtain ⟨hx, hl⟩ := List.pairwise_cons.mp h
      unfold SortedMap.set SortedMap.modify
      split_ifs with hk hbefore
      · -- the entry that goes is the only one with the key
        rw [List.mem_cons, List.mem_cons]
        refine or_congr_right ⟨fun he => ⟨Or.inr he, fun hek => ?_⟩, ?_⟩
        · exact hlt.ne (hx e he) (hk.trans hek.symm)
        · rintro ⟨rfl | he, hek⟩
          · exact absurd hk hek
          · exact he
      · rw [List.mem_cons]
        refine or_congr_right ⟨fun he => ⟨he, fun hek => ?_⟩, And.left⟩
        rcases List.mem_cons.mp he with rfl | he
        · exact hk hek
        · exact hlt.ne (hlt.trans _ _ _ hbefore (hx e he)) hek.symm
      · have ih' := ih hl
        unfold SortedMap.set at ih'
        rw [List.mem_cons, List.mem_cons, ih']
        constructor
        · rintro (rfl | rfl | he)
          · exact Or.inr ⟨Or.inl rfl, hk⟩
          · exact Or.inl rfl
          · exact Or.inr ⟨Or.inr he.1, he.2⟩
        · rintro (rfl | ⟨rfl | he, hek⟩)
          · exact Or.inr (Or.inl rfl)
          · exact Or.inl rfl
          · exact Or.inr (Or.inr ⟨he, hek⟩)

/-- A map stays in order when entries are written into it. -/
theorem Sorted.foldl_sorted (hlt : StrictTotal lt) (h : Sorted lt l) (m : List (K × V)) :
    Sorted lt (m.foldl (fun l e => SortedMap.set lt e.1 e.2 l) l) := by
  induction m generalizing l with
  | nil => exact h
  | cons x m ih => exact ih (h.set hlt.trans hlt.total x.1 x.2)

/-- **The entries after writing another map** into a map: those of the other, and those of its own
with other keys. -/
theorem Sorted.mem_foldl_set_iff (hlt : StrictTotal lt) (h : Sorted lt l)
    (hm : (m.map Prod.fst).Nodup) :
    e ∈ m.foldl (fun l e => SortedMap.set lt e.1 e.2 l) l ↔
      e ∈ m ∨ e ∈ l ∧ e.1 ∉ m.map Prod.fst := by
  induction m generalizing l with
  | nil => exact (or_iff_right List.not_mem_nil).trans (and_iff_left List.not_mem_nil) |>.symm
  | cons x m ih =>
      obtain ⟨hx, hm'⟩ := List.nodup_cons.mp hm
      rw [List.foldl_cons, ih (h.set hlt.trans hlt.total _ _) hm', h.mem_set_iff hlt,
        List.mem_cons, List.map_cons, List.mem_cons]
      constructor
      · rintro (he | ⟨rfl | ⟨he, hne⟩, hkey⟩)
        · exact Or.inl (Or.inr he)
        · exact Or.inl (Or.inl rfl)
        · exact Or.inr ⟨he, not_or.mpr ⟨hne, hkey⟩⟩
      · rintro ((rfl | he) | ⟨he, hkey⟩)
        · exact Or.inr ⟨Or.inl rfl, hx⟩
        · exact Or.inl he
        · obtain ⟨hne, hkey⟩ := not_or.mp hkey
          exact Or.inr ⟨Or.inr ⟨he, hne⟩, hkey⟩

/-! ### How two maps begin -/

/-- How many entries come before a key. -/
def before (lt : K → K → Bool) (l : List (K × V)) (k : K) : ℕ := l.countP fun x => lt x.1 k

omit [DecidableEq K] in
/-- An entry that is cut off has as many before it as are not. -/
theorem Sorted.le_before (hlt : StrictTotal lt) (hl : Sorted lt l) (he : e ∈ l) {n : ℕ}
    (hcut : e ∉ l.take n) (hsub : l.take n ⊆ m) : n ≤ before lt m e.1 := by
  have hdrop : e ∈ l.drop n := by
    rw [← List.take_append_drop n l] at he
    exact (List.mem_append.mp he).resolve_left hcut
  have hlength : n ≤ (l.take n).length := by
    have hpos := List.length_pos_of_mem hdrop
    rw [List.length_drop] at hpos
    rw [List.length_take]
    omega
  have horder : ∀ a ∈ l.take n, lt a.1 e.1 = true := by
    rw [Sorted, ← List.take_append_drop n l, List.pairwise_append] at hl
    exact fun a ha => hl.2.2 a ha e hdrop
  have hnodup : l.Nodup := (hl.nodup hlt.irrefl).of_map Prod.fst
  have hfilter : l.take n ⊆ m.filter fun x => lt x.1 e.1 := fun a ha =>
    List.mem_filter.mpr ⟨hsub ha, horder a ha⟩
  calc n ≤ (l.take n).length := hlength
    _ ≤ (m.filter fun x => lt x.1 e.1).length :=
        (List.subperm_of_subset (hnodup.sublist (l.take_sublist n)) hfilter).length_le
    _ = before lt m e.1 := List.countP_eq_length_filter.symm

omit [DecidableEq K] in
/-- A map whose own entries come late begins like the other. -/
theorem Sorted.take_eq (hlt : StrictTotal lt) (hl : Sorted lt l) (hm : Sorted lt m)
    (hkeys : ∀ k ∈ m.map Prod.fst, k ∈ l.map Prod.fst) {n : ℕ}
    (hlate : ∀ e ∈ l, e ∈ m ∨ n ≤ before lt m e.1) : l.take n = m.take n := by
  induction l generalizing m n with
  | nil =>
      rcases m with - | ⟨x, m⟩
      · rfl
      · exact absurd (hkeys x.1 (List.mem_map_of_mem List.mem_cons_self)) List.not_mem_nil
  | cons e l ih =>
      obtain ⟨he, hl'⟩ := List.pairwise_cons.mp hl
      -- no key of the other map comes before the first one of this
      have hfirst : ∀ x ∈ m, ¬lt x.1 e.1 = true := by
        intro x hx hxe
        rcases List.mem_cons.mp (hkeys x.1 (List.mem_map_of_mem hx)) with hk | hk
        · exact hlt.ne hxe hk
        · obtain ⟨y, hy, hyk⟩ := List.mem_map.mp hk
          exact hlt.asymm hxe (hyk ▸ he y hy)
      rcases n with - | n
      · rw [List.take_zero, List.take_zero]
      · -- the first entry of this map is the first of the other too, as nothing comes before it
        rcases hlate e List.mem_cons_self with hem | hlate'
        · rcases m with - | ⟨x, m⟩
          · cases hem
          · obtain ⟨hx, hm'⟩ := List.pairwise_cons.mp hm
            have hxe : e = x := by
              rcases List.mem_cons.mp hem with hxe | hem
              · exact hxe
              · exact absurd (hx e hem) (hfirst x List.mem_cons_self)
            subst hxe
            rw [List.take_succ_cons, List.take_succ_cons]
            refine congrArg (e :: ·) (ih hl' hm' (fun k hk => ?_) fun y hy => ?_)
            · obtain ⟨y, hy, rfl⟩ := List.mem_map.mp hk
              refine (List.mem_cons.mp (hkeys y.1 (List.mem_cons_of_mem _ hk))).resolve_left ?_
              exact fun h => hlt.ne (hx y hy) h.symm
            · rcases hlate y (List.mem_cons_of_mem _ hy) with hym | hcount
              · refine Or.inl ((List.mem_cons.mp hym).resolve_left ?_)
                rintro rfl
                exact hlt.asymm (he y hy) (he y hy)
              · refine Or.inr ?_
                have hcons : before lt (e :: m) y.1 = before lt m y.1 + 1 :=
                  List.countP_cons_of_pos (he y hy)
                rw [hcons] at hcount
                exact Nat.le_of_succ_le_succ hcount
        · have hnone : before lt m e.1 = 0 :=
            List.countP_eq_zero.mpr fun x hx => hfirst x hx
          rw [hnone] at hlate'
          exact absurd hlate' (Nat.not_succ_le_zero n)

omit [DecidableEq K] in
/-- **Two maps begin alike**, the keys of the second being in the first, just when the entries that
only the first has come after `n` entries of the second. -/
theorem Sorted.same_prefix_iff (hlt : StrictTotal lt) (hl : Sorted lt l) (hm : Sorted lt m)
    (hkeys : ∀ k ∈ m.map Prod.fst, k ∈ l.map Prod.fst) (n : ℕ) :
    (∀ e, e ∈ l.take n ↔ e ∈ m.take n) ↔ ∀ e ∈ l, e ∈ m ∨ n ≤ before lt m e.1 := by
  constructor
  · intro h e he
    by_cases hcut : e ∈ l.take n
    · exact Or.inl (List.mem_of_mem_take ((h e).mp hcut))
    · exact Or.inr (hl.le_before hlt he hcut fun a ha => List.mem_of_mem_take ((h a).mp ha))
  · intro h e
    rw [hl.take_eq hlt hm hkeys h]

end SortedMap
