/-
ZGalaxy/Hashtable.lean

A chained hash table as a finite map.

A table is a row of buckets, each a list of entries with its latest entry first, and
the number of entries, which decides when the row is doubled.  That every entry is
in the bucket of its hash, that no key occurs twice and that the number is right
are fields of the structure, so every table that can be built has them, whatever the
hash function.

What a table means is the partial function `get`.  Main results, one for each
operation: `get_set`, `get_erase`, `get_modify`, `get_retain` and `get_sweep`; `mem_entries_iff`
says that the entries are exactly what `get` finds.
-/
import Mathlib.Data.List.Nodup
import Mathlib.Logic.Function.Basic

/-- Keys with a hash. -/
class HashCode (K : Type*) where
  hashCode : K → ℕ

/-- A row of `bc` buckets with `s` entries. -/
structure Hashtable (K V : Type*) [HashCode K] where
  bc : ℕ
  t : ℕ → List (K × V)
  s : ℕ
  pos : 0 < bc
  placed : ∀ i, ∀ e ∈ t i, HashCode.hashCode e.1 % bc = i
  nodup : ∀ i, ((t i).map Prod.fst).Nodup
  size_eq : s = ((List.range bc).flatMap t).length

namespace Hashtable

/-! ### Lists of buckets -/

section Buckets

variable {α : Type*}

theorem length_flatMap_update (t : ℕ → List α) (b : List α) {i n : ℕ} (h : i < n) :
    ((List.range n).flatMap (Function.update t i b)).length + (t i).length
      = ((List.range n).flatMap t).length + b.length := by
  induction n with
  | zero => exact absurd h (Nat.not_lt_zero i)
  | succ n ih =>
      simp only [List.range_succ, List.flatMap_append, List.length_append, List.flatMap_cons,
        List.flatMap_nil, List.append_nil]
      by_cases hin : i = n
      · subst hin
        have hsame : (List.range i).flatMap (Function.update t i b) = (List.range i).flatMap t := by
          refine List.flatMap_congr fun j hj => ?_
          rw [Function.update_of_ne (Nat.ne_of_lt (List.mem_range.mp hj))]
        rw [hsame, Function.update_self]
        omega
      · rw [Function.update_of_ne (Ne.symm hin)]
        have := ih (by omega)
        omega

/-- A list dealt out by an index below `n` keeps its length. -/
theorem length_flatMap_filter (f : α → ℕ) (l : List α) {n : ℕ} (h : ∀ a ∈ l, f a < n) :
    ((List.range n).flatMap fun j => (l.filter fun a => f a = j).reverse).length = l.length := by
  induction l with
  | nil => simp
  | cons a l ih =>
      have ha := h a List.mem_cons_self
      have hcons : (fun j => ((a :: l).filter fun a => f a = j).reverse)
          = Function.update (fun j => (l.filter fun a => f a = j).reverse) (f a)
              ((l.filter fun a' => f a' = f a).reverse ++ [a]) := by
        funext j
        by_cases hj : j = f a
        · subst hj
          rw [Function.update_self, List.filter_cons_of_pos (by simp), List.reverse_cons]
        · rw [Function.update_of_ne hj, List.filter_cons_of_neg (by simp [Ne.symm hj])]
      have hlen := length_flatMap_update (fun j => (l.filter fun a => f a = j).reverse)
        ((l.filter fun a' => f a' = f a).reverse ++ [a]) ha
      rw [ih fun a' ha' => h a' (List.mem_cons_of_mem _ ha')] at hlen
      rw [hcons]
      simp only [List.length_append, List.length_reverse, List.length_cons,
        List.length_nil] at hlen ⊢
      omega

end Buckets

variable {K V : Type*} [DecidableEq K] [HashCode K]

/-! ### Looking up -/

/-- There are 64 buckets where the source names no number. -/
theorem buckets_pos : 0 < 64 := Nat.succ_pos 63

/-- The table with `bc` empty buckets. -/
def empty (bc : ℕ) (h : 0 < bc) : Hashtable K V where
  bc := bc
  t := fun _ => []
  s := 0
  pos := h
  placed := fun _ _ he => absurd he List.not_mem_nil
  nodup := fun _ => List.nodup_nil
  size_eq := by simp

variable (ht : Hashtable K V)

/-- The bucket of a key. -/
def idx (k : K) : ℕ := HashCode.hashCode k % ht.bc

/-- `Hashtable::entries`, in the order of its iterator. -/
def entries : List (K × V) := (List.range ht.bc).flatMap ht.t

/-- `Hashtable::get`. -/
def get (k : K) : Option V :=
  ((ht.t (ht.idx k)).find? fun e => e.1 = k).map Prod.snd

omit [DecidableEq K] in
theorem idx_lt (k : K) : ht.idx k < ht.bc := Nat.mod_lt _ ht.pos

omit [DecidableEq K] in
/-- Every entry is in the bucket of its key. -/
theorem mem_entries {e : K × V} : e ∈ ht.entries ↔ e ∈ ht.t (ht.idx e.1) := by
  rw [entries, List.mem_flatMap]
  constructor
  · rintro ⟨i, -, he⟩
    rwa [idx, ht.placed i e he]
  · intro he
    exact ⟨_, List.mem_range.mpr (ht.idx_lt e.1), he⟩

omit [DecidableEq K] in
/-- No key occurs twice in the whole table. -/
theorem nodup_entries : (ht.entries.map Prod.fst).Nodup := by
  rw [entries, List.map_flatMap, List.nodup_flatMap]
  refine ⟨fun i _ => ht.nodup i, List.nodup_range.imp fun {i j} hij => ?_⟩
  refine List.disjoint_left.mpr ?_
  intro k hi hj
  obtain ⟨e, he, rfl⟩ := List.mem_map.mp hi
  obtain ⟨e', he', hk⟩ := List.mem_map.mp hj
  have hplaced := ht.placed j e' he'
  rw [hk, ht.placed i e he] at hplaced
  exact hij hplaced

omit [HashCode K] in
/-- In a list without duplicate keys the first entry with a key is the only one. -/
theorem find?_key_eq_some_iff {b : List (K × V)} (h : (b.map Prod.fst).Nodup) {k : K} {v : V} :
    (b.find? fun e => e.1 = k).map Prod.snd = some v ↔ (k, v) ∈ b := by
  induction b with
  | nil => simp
  | cons e b ih =>
      rw [List.map_cons, List.nodup_cons] at h
      by_cases hk : e.1 = k
      · rw [List.find?_cons_of_pos (by simpa using hk), Option.map_some, Option.some.injEq,
          List.mem_cons]
        constructor
        · rintro rfl
          exact Or.inl (Prod.ext hk.symm rfl)
        · rintro (he | he)
          · rw [← he]
          · exact absurd (List.mem_map_of_mem (f := Prod.fst) he) (hk ▸ h.1)
      · rw [List.find?_cons_of_neg (by simpa using hk), ih h.2, List.mem_cons]
        exact ⟨Or.inr, fun he => he.resolve_left fun heq => hk (heq ▸ rfl)⟩

/-- **The entries are what `get` finds.** -/
theorem mem_entries_iff {k : K} {v : V} : (k, v) ∈ ht.entries ↔ ht.get k = some v := by
  rw [mem_entries, get, find?_key_eq_some_iff (ht.nodup _)]

@[simp] theorem get_empty (bc : ℕ) (h : 0 < bc) (k : K) :
    (empty bc h : Hashtable K V).get k = none :=
  rfl

/-! ### Changing one bucket -/

/-- The table with another list in the bucket of `k`. -/
def withBucket (k : K) (b : List (K × V)) (hp : ∀ e ∈ b, HashCode.hashCode e.1 % ht.bc = ht.idx k)
    (hn : (b.map Prod.fst).Nodup) : Hashtable K V where
  bc := ht.bc
  t := Function.update ht.t (ht.idx k) b
  s := ht.s + b.length - (ht.t (ht.idx k)).length
  pos := ht.pos
  placed := by
    intro i e he
    by_cases hi : i = ht.idx k
    · subst hi
      rw [Function.update_self] at he
      exact hp e he
    · rw [Function.update_of_ne hi] at he
      exact ht.placed i e he
  nodup := by
    intro i
    by_cases hi : i = ht.idx k
    · subst hi
      rwa [Function.update_self]
    · rw [Function.update_of_ne hi]
      exact ht.nodup i
  size_eq := by
    have h := length_flatMap_update ht.t b (ht.idx_lt k)
    have hs := ht.size_eq
    omega

theorem get_withBucket {k : K} {b : List (K × V)} (hp hn) (k' : K) :
    (ht.withBucket k b hp hn).get k' =
      if ht.idx k' = ht.idx k then (b.find? fun e => e.1 = k').map Prod.snd else ht.get k' := by
  have hidx : (ht.withBucket k b hp hn).idx k' = ht.idx k' := rfl
  rw [get, hidx]
  by_cases h : ht.idx k' = ht.idx k
  · rw [if_pos h, h]
    show ((Function.update ht.t (ht.idx k) b (ht.idx k)).find? _).map _ = _
    rw [Function.update_self]
  · rw [if_neg h]
    show ((Function.update ht.t (ht.idx k) b (ht.idx k')).find? _).map _ = _
    rw [Function.update_of_ne h]
    rfl

/-! ### Setting -/

/-- `_grow`: twice the buckets, each entry put in front of its new one. -/
def grow : Hashtable K V where
  bc := ht.bc * 2
  t := fun j => (ht.entries.filter fun e => HashCode.hashCode e.1 % (ht.bc * 2) = j).reverse
  s := ht.s
  pos := Nat.mul_pos ht.pos (by decide)
  placed := by
    intro i e he
    rw [List.mem_reverse, List.mem_filter] at he
    exact of_decide_eq_true he.2
  nodup := by
    intro i
    rw [List.map_reverse, List.nodup_reverse]
    exact ht.nodup_entries.sublist (List.filter_sublist.map _)
  size_eq := by
    rw [length_flatMap_filter (fun e : K × V => HashCode.hashCode e.1 % (ht.bc * 2)) ht.entries
      fun e _ => Nat.mod_lt _ (Nat.mul_pos ht.pos (by decide))]
    exact ht.size_eq

/-- Growing keeps the meaning of the table. -/
@[simp] theorem get_grow (k : K) : ht.grow.get k = ht.get k := by
  refine Option.ext fun v => ?_
  rw [← mem_entries_iff, ← mem_entries_iff, mem_entries, idx]
  show (k, v) ∈ (ht.entries.filter _).reverse ↔ _
  rw [List.mem_reverse, List.mem_filter]
  exact ⟨fun h => h.1, fun h => ⟨h, decide_eq_true rfl⟩⟩

/-- An absent key is not in its bucket. -/
theorem notMem_of_get_eq_none {k : K} (h : ht.get k = none) :
    k ∉ (ht.t (ht.idx k)).map Prod.fst := by
  intro hmem
  obtain ⟨⟨k', v⟩, he, rfl⟩ := List.mem_map.mp hmem
  have hv := (find?_key_eq_some_iff (ht.nodup _)).mpr he
  rw [get, hv] at h
  cases h

/-- A new entry in front of its bucket. -/
def push (k : K) (v : V) (h : ht.get k = none) : Hashtable K V :=
  ht.withBucket k ((k, v) :: ht.t (ht.idx k))
    (by
      intro e he
      rcases List.mem_cons.mp he with rfl | he
      · rfl
      · exact ht.placed _ _ he)
    (by
      rw [List.map_cons, List.nodup_cons]
      exact ⟨ht.notMem_of_get_eq_none h, ht.nodup _⟩)

theorem get_push {k : K} (v : V) (h : ht.get k = none) (k' : K) :
    (ht.push k v h).get k' = if k' = k then some v else ht.get k' := by
  rw [push, get_withBucket]
  by_cases hk : k' = k
  · subst hk
    rw [if_pos rfl, if_pos rfl, List.find?_cons_of_pos (by simp)]
    rfl
  · rw [if_neg hk, List.find?_cons_of_neg (by simpa using Ne.symm hk)]
    split_ifs with hi
    · rw [get, hi]
    · rfl

/-- A new entry, after doubling a full row of buckets. -/
def insert (k : K) (v : V) (h : ht.get k = none) : Hashtable K V :=
  if ht.bc ≤ ht.s then ht.grow.push k v (by rwa [get_grow]) else ht.push k v h

theorem get_insert {k : K} (v : V) (h : ht.get k = none) (k' : K) :
    (ht.insert k v h).get k' = if k' = k then some v else ht.get k' := by
  unfold insert
  split_ifs with hs hk hk
  · rw [get_push, if_pos hk]
  · rw [get_push, if_neg hk, get_grow]
  · rw [get_push, if_pos hk]
  · rw [get_push, if_neg hk]

/-- The entry of a key in a bucket, with another value. -/
def replace (k : K) (v : V) (b : List (K × V)) : List (K × V) :=
  b.map fun e => if e.1 = k then (e.1, v) else e

omit [HashCode K] in
theorem map_fst_replace (k : K) (v : V) (b : List (K × V)) :
    (replace k v b).map Prod.fst = b.map Prod.fst := by
  rw [replace, List.map_map]
  refine List.map_congr_left fun e _ => ?_
  show (if e.1 = k then (e.1, v) else e).1 = e.1
  split_ifs <;> rfl

omit [HashCode K] in
theorem find?_replace (k : K) (v : V) (b : List (K × V)) (k' : K) :
    ((replace k v b).find? fun e => e.1 = k').map Prod.snd =
      if k' = k then ((b.find? fun e => e.1 = k').map fun _ => v)
      else (b.find? fun e => e.1 = k').map Prod.snd := by
  induction b with
  | nil => simp [replace]
  | cons e b ih =>
      rw [replace, List.map_cons] at *
      by_cases he : e.1 = k' <;> by_cases hk : k' = k
      · rw [if_pos hk, if_pos (he.trans hk), List.find?_cons_of_pos (by simpa using he),
          List.find?_cons_of_pos (by simpa using he)]
        rfl
      · rw [if_neg hk, if_neg (fun h => hk (he.symm.trans h)),
          List.find?_cons_of_pos (by simpa using he), List.find?_cons_of_pos (by simpa using he)]
      · rw [if_pos hk] at ih ⊢
        rw [List.find?_cons_of_neg (by split_ifs <;> simpa using he),
          List.find?_cons_of_neg (by simpa using he), ih]
      · rw [if_neg hk] at ih ⊢
        rw [List.find?_cons_of_neg (by split_ifs <;> simpa using he),
          List.find?_cons_of_neg (by simpa using he), ih]

/-- `Hashtable::set`. -/
def set (k : K) (v : V) : Hashtable K V :=
  if h : ht.get k = none then
    ht.insert k v h
  else
    ht.withBucket k (replace k v (ht.t (ht.idx k)))
      (by
        intro e he
        obtain ⟨e', he', rfl⟩ := List.mem_map.mp he
        have := ht.placed _ _ he'
        split_ifs <;> exact this)
      (by
        rw [map_fst_replace]
        exact ht.nodup _)

/-- **What setting does.** -/
theorem get_set (k : K) (v : V) (k' : K) :
    (ht.set k v).get k' = if k' = k then some v else ht.get k' := by
  unfold set
  by_cases h : ht.get k = none
  · rw [dif_pos h, get_insert]
  · rw [dif_neg h, get_withBucket, find?_replace]
    by_cases hk : k' = k
    · subst hk
      obtain ⟨w, hw⟩ := Option.ne_none_iff_exists'.mp h
      rw [if_pos rfl, if_pos rfl, if_pos rfl]
      rw [get, Option.map_eq_some_iff] at hw
      obtain ⟨e, he, -⟩ := hw
      rw [he]
      rfl
    · rw [if_neg hk, if_neg hk]
      split_ifs with hi
      · rw [get, hi]
      · rfl

/-- `Hashtable::operator[]`, with what is then done to the value in place: an absent
key gets a default value first. -/
def modify [Inhabited V] (k : K) (f : V → V) : Hashtable K V :=
  ht.set k (f ((ht.get k).getD default))

/-- **What modifying does.** -/
theorem get_modify [Inhabited V] (k : K) (f : V → V) (k' : K) :
    (ht.modify k f).get k' = if k' = k then some (f ((ht.get k).getD default)) else ht.get k' :=
  ht.get_set _ _ _

/-! ### Erasing -/

/-- `Hashtable::erase`. -/
def erase (k : K) : Hashtable K V :=
  ht.withBucket k ((ht.t (ht.idx k)).filter fun e => e.1 ≠ k)
    (fun _ he => ht.placed _ _ (List.mem_of_mem_filter he))
    ((ht.nodup _).sublist (List.filter_sublist.map _))

/-- **What erasing does.** -/
theorem get_erase (k k' : K) : (ht.erase k).get k' = if k' = k then none else ht.get k' := by
  rw [erase, get_withBucket]
  by_cases hk : k' = k
  · subst hk
    rw [if_pos rfl, if_pos rfl, List.find?_eq_none.mpr]
    · rfl
    · intro e he
      simpa using (List.mem_filter.mp he).2
  · rw [List.find?_filter]
    have hpred : (fun e : K × V => decide (decide (e.1 ≠ k) = true ∧ decide (e.1 = k') = true))
        = fun e => decide (e.1 = k') := by
      funext e
      by_cases he : e.1 = k'
      · simp [he, hk]
      · simp [he]
    rw [if_neg hk, hpred]
    split_ifs with hi
    · rw [get, hi]
    · rfl

/-- The loop over the entries that erases those that fail `p`. -/
def retain (p : K → V → Bool) : Hashtable K V :=
  ht.entries.foldl (fun ht' e => if p e.1 e.2 then ht' else ht'.erase e.1) ht

theorem get_foldl_erase (p : K → V → Bool) (l : List (K × V)) (k : K) :
    (l.foldl (fun ht' e => if p e.1 e.2 then ht' else ht'.erase e.1) ht).get k =
      if ∃ e ∈ l, e.1 = k ∧ p e.1 e.2 = false then none else ht.get k := by
  -- on the entries: one that is erased stays so, as none is added
  induction l generalizing ht with
  | nil => simp
  | cons e l ih =>
      rw [List.foldl_cons, ih]
      by_cases hl : ∃ e ∈ l, e.1 = k ∧ p e.1 e.2 = false
      · obtain ⟨e', he', h⟩ := hl
        rw [if_pos ⟨e', he', h⟩, if_pos ⟨e', List.mem_cons_of_mem _ he', h⟩]
      · rw [if_neg hl]
        have hiff : (∃ e' ∈ e :: l, e'.1 = k ∧ p e'.1 e'.2 = false)
            ↔ e.1 = k ∧ p e.1 e.2 = false := by
          constructor
          · rintro ⟨e', he', h⟩
            rcases List.mem_cons.mp he' with rfl | he'
            · exact h
            · exact absurd ⟨e', he', h⟩ hl
          · exact fun h => ⟨e, List.mem_cons_self, h⟩
        rw [if_congr hiff rfl rfl]
        rcases hp : p e.1 e.2 with - | -
        · rw [if_neg (by decide), get_erase]
          simp [eq_comm]
        · rw [if_pos rfl, if_neg (by simp)]

/-- **What the loop leaves.** -/
theorem get_retain (p : K → V → Bool) (k : K) :
    (ht.retain p).get k = (ht.get k).filter (p k) := by
  rw [retain, get_foldl_erase]
  have hiff : (∃ e ∈ ht.entries, e.1 = k ∧ p e.1 e.2 = false)
      ↔ ∃ v, ht.get k = some v ∧ p k v = false := by
    constructor
    · rintro ⟨⟨k', v⟩, he, rfl, hp⟩
      exact ⟨v, ht.mem_entries_iff.mp he, hp⟩
    · rintro ⟨v, hv, hp⟩
      exact ⟨(k, v), ht.mem_entries_iff.mpr hv, rfl, hp⟩
  rw [if_congr hiff rfl rfl]
  rcases hk : ht.get k with - | v
  · simp
  · rcases hp : p k v with - | - <;> simp [hp, Option.filter]

/-- The loop over the entries that gives each value the new one that `f` makes of it, or
erases it when there is none. -/
def sweep (f : K → V → Option V) : Hashtable K V :=
  ht.entries.foldl (fun ht' e => (f e.1 e.2).elim (ht'.erase e.1) (ht'.set e.1)) ht

theorem get_foldl_sweep (f : K → V → Option V) {l : List (K × V)} (hl : (l.map Prod.fst).Nodup)
    (k : K) :
    (l.foldl (fun ht' e => (f e.1 e.2).elim (ht'.erase e.1) (ht'.set e.1)) ht).get k =
      (l.find? fun e => e.1 = k).elim (ht.get k) (fun e => f k e.2) := by
  induction l generalizing ht with
  | nil => rfl
  | cons e l ih =>
      rw [List.map_cons, List.nodup_cons] at hl
      rw [List.foldl_cons, ih _ hl.2, List.find?_cons]
      by_cases hk : e.1 = k
      · -- the key does not come again
        have hnone : (l.find? fun e => decide (e.1 = k)) = none := by
          rw [List.find?_eq_none]
          intro e' he' heq
          rw [decide_eq_true_eq] at heq
          exact hl.1 (List.mem_map.mpr ⟨e', he', heq.trans hk.symm⟩)
        rw [hnone, decide_eq_true hk]
        subst hk
        show Hashtable.get _ _ = f e.1 e.2
        rcases f e.1 e.2 with - | v
        · exact (get_erase _ _ _).trans (if_pos rfl)
        · exact (get_set _ _ _ _).trans (if_pos rfl)
      · rw [decide_eq_false hk]
        dsimp only
        have hget : Hashtable.get ((f e.1 e.2).elim (ht.erase e.1) (ht.set e.1)) k = ht.get k := by
          rcases f e.1 e.2 with - | v
          · exact (get_erase _ _ _).trans (if_neg (Ne.symm hk))
          · exact (get_set _ _ _ _).trans (if_neg (Ne.symm hk))
        rw [hget]

/-- **What sweeping leaves.** -/
theorem get_sweep (f : K → V → Option V) (k : K) : (ht.sweep f).get k = (ht.get k).bind (f k) := by
  rw [sweep, get_foldl_sweep ht f ht.nodup_entries]
  rcases hf : ht.entries.find? fun e => e.1 = k with - | ⟨k', v⟩
  · have hget : ht.get k = none := by
      rw [← Option.not_isSome_iff_eq_none, Option.isSome_iff_exists]
      rintro ⟨v, hv⟩
      rw [List.find?_eq_none] at hf
      exact hf (k, v) (ht.mem_entries_iff.mpr hv) (decide_eq_true rfl)
    rw [hf, hget]
    rfl
  · have hk : k' = k := by simpa using List.find?_some hf
    subst hk
    rw [hf, ht.mem_entries_iff.mp (List.mem_of_find?_eq_some hf)]
    rfl

end Hashtable
