/-
ZGalaxy/SortedMap.lean

A map kept as the row of its entries, in the order of their keys.

`lt` is the order that keys are put in.  A value is written by key, in the entry that has the key
or in a new one in its place (`modify`, `set`), and erased by key.  What an operation leaves is
said of the entries: each is one of before, or the one that was written (`mem_modify`, `mem_set`,
`mem_erase`); and of what is found under a key (`get_set`, `get_erase`).
-/
import Mathlib.Data.List.Basic

namespace SortedMap

variable {K V : Type*} [DecidableEq K] (lt : K → K → Bool)

/-- The value of a key becomes `f` of it; one that is not there yet is `d` at first. -/
def modify (d : V) (k : K) (f : V → V) : List (K × V) → List (K × V)
  | [] => [(k, f d)]
  | e :: l =>
      if e.1 = k then (k, f e.2) :: l
      else if lt k e.1 then (k, f d) :: e :: l
      else e :: modify d k f l

/-- The value of a key becomes `v`. -/
def set (k : K) (v : V) (l : List (K × V)) : List (K × V) := modify lt v k (fun _ => v) l

theorem isEmpty_modify (lt : K → K → Bool) (d : V) (k : K) (f : V → V) (l : List (K × V)) :
    (modify lt d k f l).isEmpty = false := by
  cases l with
  | nil => rfl
  | cons e l =>
      unfold modify
      split_ifs <;> rfl

/-- The entry of a key goes. -/
def erase (k : K) (l : List (K × V)) : List (K × V) := l.filter fun e => e.1 != k

variable {lt} {d v : V} {k : K} {f : V → V} {l : List (K × V)} {e : K × V}

/-- **An entry after writing** was there before, or is the one written. -/
theorem mem_modify (h : e ∈ modify lt d k f l) :
    e ∈ l ∨ e.1 = k ∧ (e.2 = f d ∨ ∃ v, (k, v) ∈ l ∧ e.2 = f v) := by
  induction l with
  | nil =>
      obtain rfl := List.mem_singleton.mp h
      exact Or.inr ⟨rfl, Or.inl rfl⟩
  | cons x l ih =>
      unfold modify at h
      split_ifs at h with hk hlt
      · rcases List.mem_cons.mp h with rfl | h
        · exact Or.inr ⟨rfl, Or.inr ⟨x.2, hk ▸ List.mem_cons_self, rfl⟩⟩
        · exact Or.inl (List.mem_cons_of_mem x h)
      · rcases List.mem_cons.mp h with rfl | h
        · exact Or.inr ⟨rfl, Or.inl rfl⟩
        · exact Or.inl h
      · rcases List.mem_cons.mp h with rfl | h
        · exact Or.inl List.mem_cons_self
        · rcases ih h with h | ⟨hk, h | ⟨v, hv, h⟩⟩
          · exact Or.inl (List.mem_cons_of_mem x h)
          · exact Or.inr ⟨hk, Or.inl h⟩
          · exact Or.inr ⟨hk, Or.inr ⟨v, List.mem_cons_of_mem x hv, h⟩⟩

theorem mem_set (h : e ∈ set lt k v l) : e ∈ l ∨ e = (k, v) := by
  rcases mem_modify h with h | ⟨hk, h | ⟨-, -, h⟩⟩
  · exact Or.inl h
  · exact Or.inr (Prod.ext hk h)
  · exact Or.inr (Prod.ext hk h)

theorem mem_erase (h : e ∈ erase k l) : e ∈ l := List.mem_of_mem_filter h

/-- What is written over again comes from one of the rows. -/
theorem mem_foldl_set {m : List (K × V)} (h : e ∈ m.foldl (fun l x => set lt x.1 x.2 l) l) :
    e ∈ l ∨ e ∈ m := by
  induction m generalizing l with
  | nil => exact Or.inl h
  | cons x m ih =>
      rcases ih h with h | h
      · rcases mem_set h with h | rfl
        · exact Or.inl h
        · exact Or.inr List.mem_cons_self
      · exact Or.inr (List.mem_cons_of_mem x h)

/-! ### Lookups -/

/-- The value of a key. -/
def get (k : K) (l : List (K × V)) : Option V := (l.find? fun e => e.1 == k).map Prod.snd

theorem get_cons (k : K) (e : K × V) (l : List (K × V)) :
    get k (e :: l) = if e.1 = k then some e.2 else get k l := by
  unfold get
  rw [List.find?_cons]
  by_cases h : e.1 = k
  · rw [if_pos h, beq_iff_eq.mpr h]
    rfl
  · rw [if_neg h, beq_eq_false_iff_ne.mpr h]

/-- Writing a key changes what is found under it, and nothing else. -/
theorem get_set (lt : K → K → Bool) (k k' : K) (v : V) (l : List (K × V)) :
    get k' (set lt k v l) = if k' = k then some v else get k' l := by
  -- on the entries, up to the place of the key
  induction l with
  | nil =>
      show get k' ((k, v) :: []) = _
      rw [get_cons]
      exact if_congr eq_comm rfl rfl
  | cons e l ih =>
      unfold set modify
      by_cases hk : e.1 = k
      · rw [if_pos hk, get_cons, get_cons, hk]
        by_cases hk' : k' = k
        · rw [if_pos hk'.symm, if_pos hk']
        · rw [if_neg (Ne.symm hk'), if_neg hk', if_neg (Ne.symm hk')]
      · rw [if_neg hk]
        by_cases hlt : lt k e.1 = true
        · rw [if_pos hlt, get_cons]
          exact if_congr eq_comm rfl rfl
        · rw [if_neg hlt, get_cons, get_cons]
          by_cases he : e.1 = k'
          · rw [if_pos he, if_pos he, if_neg fun h => hk (he.trans h)]
          · rw [if_neg he, if_neg he]
            exact ih

theorem get_erase (k k' : K) (l : List (K × V)) :
    get k' (erase k l) = if k' = k then none else get k' l := by
  unfold erase
  induction l with
  | nil => exact (ite_self _).symm
  | cons e l ih =>
      by_cases hk : e.1 = k
      · rw [List.filter_cons, if_neg (by rw [hk, bne_self_eq_false]; exact Bool.false_ne_true), ih,
          get_cons]
        by_cases hk' : k' = k
        · rw [if_pos hk', if_pos hk']
        · rw [if_neg hk', if_neg hk', if_neg fun h => hk' (h.symm.trans hk)]
      · rw [List.filter_cons, if_pos (bne_iff_ne.mpr hk), get_cons, get_cons, ih]
        by_cases he : e.1 = k'
        · rw [if_pos he, if_pos he, if_neg fun h => hk (he.trans h)]
        · rw [if_neg he, if_neg he]

/-- A key that is found has an entry. -/
theorem mem_of_get {k : K} {v : V} {l : List (K × V)} (h : get k l = some v) : (k, v) ∈ l := by
  unfold get at h
  rw [Option.map_eq_some_iff] at h
  obtain ⟨e, he, rfl⟩ := h
  have hkey := List.find?_some he
  rw [← beq_iff_eq.mp hkey]
  exact List.mem_of_find?_eq_some he

theorem get_ne_none {k : K} {l : List (K × V)} (h : k ∈ l.map Prod.fst) : get k l ≠ none := by
  obtain ⟨e, he, rfl⟩ := List.mem_map.mp h
  unfold get
  intro hnone
  rw [Option.map_eq_none_iff, List.find?_eq_none] at hnone
  exact hnone e he (beq_self_eq_true _)

/-! ### Order -/

/-- The keys are in order. -/
def Sorted (lt : K → K → Bool) (l : List (K × V)) : Prop := l.Pairwise fun a b => lt a.1 b.1 = true

omit [DecidableEq K] in
theorem sorted_of_keys {lt : K → K → Bool} {l : List (K × V)}
    (h : (l.map Prod.fst).Pairwise fun a b => lt a b = true) : Sorted lt l := List.pairwise_map.mp h

/-- Writing keeps the order. -/
theorem Sorted.set {lt : K → K → Bool}
    (htrans : ∀ a b c, lt a b = true → lt b c = true → lt a c = true)
    (htotal : ∀ a b, a ≠ b → lt a b = false → lt b a = true) {l : List (K × V)}
    (h : Sorted lt l) (k : K) (v : V) : Sorted lt (SortedMap.set lt k v l) := by
  induction l with
  | nil => exact List.pairwise_singleton _ _
  | cons e l ih =>
      obtain ⟨he, hl⟩ := List.pairwise_cons.mp h
      unfold SortedMap.set modify
      split_ifs with hk hlt
      · exact List.pairwise_cons.mpr ⟨fun x hx => hk ▸ he x hx, hl⟩
      · refine List.pairwise_cons.mpr ⟨fun x hx => ?_, h⟩
        rcases List.mem_cons.mp hx with rfl | hx
        · exact hlt
        · exact htrans _ _ _ hlt (he x hx)
      · refine List.pairwise_cons.mpr ⟨fun x hx => ?_, ih hl⟩
        rcases mem_set hx with hx | rfl
        · exact he x hx
        · exact htotal _ _ (Ne.symm hk) (Bool.eq_false_iff.mpr hlt)

omit [DecidableEq K] in
/-- Keys in order are different. -/
theorem Sorted.nodup {lt : K → K → Bool} (hirrefl : ∀ a, lt a a = false) {l : List (K × V)}
    (h : Sorted lt l) : (l.map Prod.fst).Nodup := by
  refine List.pairwise_map.mpr (h.imp fun hab heq => ?_)
  rw [heq, hirrefl] at hab
  cases hab

/-- An entry is what is found under its key. -/
theorem get_of_mem {k : K} {v : V} {l : List (K × V)} (hnodup : (l.map Prod.fst).Nodup)
    (h : (k, v) ∈ l) : get k l = some v := by
  induction l with
  | nil => cases h
  | cons e l ih =>
      obtain ⟨hfirst, hrest⟩ := List.nodup_cons.mp hnodup
      rw [get_cons]
      rcases List.mem_cons.mp h with rfl | h
      · rw [if_pos rfl]
      · have hne : e.1 ≠ k := by
          intro hkey
          rw [hkey] at hfirst
          exact hfirst (List.mem_map.mpr ⟨(k, v), h, rfl⟩)
        rw [if_neg hne]
        exact ih hrest h

/-- **Writing a key counts** its new entry in place of the old one. -/
theorem countP_set {lt : K → K → Bool} (hirrefl : ∀ a, lt a a = false)
    (htrans : ∀ a b c, lt a b = true → lt b c = true → lt a c = true) {l : List (K × V)}
    (h : Sorted lt l) (p : V → Bool) (k : K) (v : V) :
    (SortedMap.set lt k v l).countP (fun e => p e.2) +
        (get k l).elim 0 (fun old => if p old then 1 else 0) =
      l.countP (fun e => p e.2) + if p v then 1 else 0 := by
  induction l with
  | nil =>
      show [(k, v)].countP (fun e => p e.2) + 0 = 0 + _
      rw [List.countP_singleton, Nat.add_zero, Nat.zero_add]
  | cons e l ih =>
      obtain ⟨he, hl⟩ := List.pairwise_cons.mp h
      unfold SortedMap.set modify
      rw [get_cons]
      by_cases hk : e.1 = k
      · rw [if_pos hk, if_pos hk, List.countP_cons, List.countP_cons]
        show l.countP (fun e => p e.2) + (if p v then 1 else 0) + (if p e.2 then 1 else 0) = _
        omega
      · rw [if_neg hk, if_neg hk]
        by_cases hlt : lt k e.1 = true
        · -- all keys are behind the new one
          have hnone : get k l = none := by
            rcases hget : get k l with - | old
            · rfl
            · have hback := htrans _ _ _ hlt (he _ (mem_of_get hget))
              rw [hirrefl] at hback
              cases hback
          rw [if_pos hlt, hnone, List.countP_cons]
          rfl
        · have hrest := ih hl
          unfold SortedMap.set at hrest
          rw [if_neg hlt, List.countP_cons, List.countP_cons]
          omega

end SortedMap
