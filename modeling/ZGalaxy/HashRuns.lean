/-
ZGalaxy/HashRuns.lean

Runs of operations on hash tables, and loops over one.

A loop over the entries of a table keeps the link to the next cell, so that the cell that it has
just come to may be erased, also through a reference to the key in that very cell: no other link
that it still needs is written, as no cell after the erased one is.

What a run of operations means is said by association lists.  A table that is assigned to itself is
cleared first, and so it is empty then, while its list is what it was.  Main result:
`runs_iff`, that in the whole run the tables are what the lists say, and loops over them do what
they should, exactly if no table with entries is assigned to itself.
-/
import Mathlib.Data.List.Range
import ZGalaxy.HashChains

namespace HashChains

open Chains

variable {K V : Type} [DecidableEq K] [HashCode K]

/-! ### The iterator -/

/-- `Hashtable::Iterator`: the bucket, and the link to the next cell in it. -/
structure Iterator where
  idx : ℕ
  b : Option ℕ

variable (c : HashChains K V)

/-- An iterator of the table. -/
def iterator : Iterator := ⟨0, c.t 0⟩

/-- `Iterator::next`: the address of the cell, if there is one more. -/
def next : ℕ → Iterator → Except Fault (Option (ℕ × Iterator))
  | _, ⟨idx, some p⟩ => do
      let b ← c.memory.read p
      pure (some (p, ⟨idx, b.next⟩))
  | 0, ⟨_, none⟩ => .error .endless
  | n + 1, ⟨idx, none⟩ =>
      if c.bc ≤ idx + 1 then .ok none else next n ⟨idx + 1, c.t (idx + 1)⟩

/-- What a step of a loop does with the key that it has been given. -/
def eraseIf (erases : Bool) (p : ℕ) : Except Fault (HashChains K V) :=
  if erases then Prod.fst <$> c.erase (.inside p) else pure c

/-- A loop over the table, after `i` steps: the entries that it comes to, and the table.  Whether a
step erases the key that it was given is up to `erases`. -/
def iterate (erases : ℕ → Bool) :
    ℕ → ℕ → HashChains K V → Iterator → Except Fault (List (K × V) × HashChains K V)
  | 0, _, _, _ => .error .endless
  | n + 1, i, c, it => do
      match ← c.next c.bc it with
      | none => pure ([], c)
      | some r => do
          let b ← c.memory.read r.1
          let c ← c.eraseIf (erases i) r.1
          let visited ← iterate erases n (i + 1) c r.2
          pure (b.val :: visited.1, visited.2)

/-- The whole loop. -/
def loop (erases : ℕ → Bool) : Except Fault (List (K × V) × HashChains K V) :=
  iterate erases (c.s + 1) 0 c c.iterator

/-- The keys that the loop erases, from step `i` on. -/
def erased (erases : ℕ → Bool) : ℕ → List (K × V) → List K
  | _, [] => []
  | i, e :: visited =>
      if erases i then e.1 :: erased erases (i + 1) visited else erased erases (i + 1) visited

variable {c} {cells : ℕ → List (ℕ × K × V)} {ht : Hashtable K V}

/-- The cells after the bucket `idx`. -/
def later (c : HashChains K V) (cells : ℕ → List (ℕ × K × V)) (idx : ℕ) : List (ℕ × K × V) :=
  (List.range' (idx + 1) (c.bc - (idx + 1))).flatMap cells

/-- The iterator has come past `before` in its bucket, and `rest` is still ahead there. -/
structure Past (c : HashChains K V) (cells : ℕ → List (ℕ × K × V)) (it : Iterator)
    (before rest : List (ℕ × K × V)) : Prop where
  lt : it.idx < c.bc
  bucket : cells it.idx = before ++ rest
  chained : Chained c.memory it.b rest

omit [DecidableEq K] [HashCode K] in
theorem later_eq_cons {idx : ℕ} (h : idx + 1 < c.bc) :
    later c cells idx = cells (idx + 1) ++ later c cells (idx + 1) := by
  have hsub : c.bc - (idx + 1) = c.bc - (idx + 1 + 1) + 1 := by omega
  rw [later, later, hsub, List.range'_succ, List.flatMap_cons]

omit [DecidableEq K] [HashCode K] in
theorem later_eq_nil {idx : ℕ} (h : c.bc ≤ idx + 1) : later c cells idx = [] := by
  rw [later, Nat.sub_eq_zero_of_le h]
  rfl

omit [DecidableEq K] in
/-- **`next`** comes to the first cell that is still ahead. -/
theorem next_eq (h : c.Laid cells ht) {it : Iterator} {before rest : List (ℕ × K × V)}
    (hp : Past c cells it before rest) {n : ℕ} (hn : c.bc ≤ it.idx + n) :
    (rest ++ later c cells it.idx = [] ∧ c.next n it = .ok none) ∨
      ∃ x it' before' rest', c.next n it = .ok (some (x.1, it')) ∧
        Past c cells it' (before' ++ [x]) rest' ∧
        rest ++ later c cells it.idx = x :: (rest' ++ later c cells it'.idx) := by
  induction n generalizing it before rest with
  | zero => exact absurd hp.lt (not_lt.mpr hn)
  | succ n ih =>
      obtain ⟨idx, b⟩ := it
      rcases rest with - | ⟨x, rest⟩
      · -- the bucket is at its end
        obtain rfl : b = none := hp.chained
        rw [List.nil_append, next]
        by_cases hlast : c.bc ≤ idx + 1
        · exact Or.inl ⟨later_eq_nil hlast, if_pos hlast⟩
        · have hlt : idx + 1 < c.bc := not_le.mp hlast
          rw [if_neg hlast, later_eq_cons hlt]
          have hp' : Past c cells ⟨idx + 1, c.t (idx + 1)⟩ [] (cells (idx + 1)) :=
            ⟨hlt, (List.nil_append _).symm, h.chained (idx + 1)⟩
          have hn' : c.bc ≤ idx + (n + 1) := hn
          refine ih hp' ?_
          show c.bc ≤ idx + 1 + n
          omega
      · obtain ⟨rfl, next, hx, hrest⟩ := hp.chained
        refine Or.inr ⟨x, ⟨idx, next⟩, before, rest, ?_, ⟨hp.lt, ?_, hrest⟩, rfl⟩
        · rw [HashChains.next, Memory.read_eq hx]
          rfl
        · rw [hp.bucket, List.append_assoc]
          rfl

/-- Erasing the cell that the iterator has just come past leaves what is ahead. -/
theorem erase_past (h : c.Laid cells ht) {it : Iterator} {before rest : List (ℕ × K × V)}
    {x : ℕ × K × V} (hp : Past c cells it (before ++ [x]) rest) :
    ∃ c' cells', c.erase (.inside x.1) = .ok (c', true) ∧ c'.Laid cells' (ht.erase x.2.1) ∧
      Past c' cells' it before rest ∧ later c' cells' it.idx = later c cells it.idx := by
  have hbucket := hp.bucket
  rw [List.append_assoc, List.singleton_append] at hbucket
  have hx : x ∈ cells it.idx := hbucket ▸ List.mem_append_right _ List.mem_cons_self
  have hidx : ht.idx x.2.1 = it.idx := h.placed hx
  obtain ⟨next, hnext⟩ := (h.chained _).mem hx
  have hkey : c.readKey (.inside x.1) = .ok x.2.1 := by
    rw [readKey, Memory.read_eq hnext]
    rfl
  obtain ⟨c', hrun, hl, hframe⟩ := h.erase_of_mem hkey (hidx ▸ hbucket) rfl
  rw [hidx] at hl
  have hbc : c'.bc = c.bc := hl.bc.trans h.bc.symm
  refine ⟨c', _, hrun, hl, ⟨hbc ▸ hp.lt, Function.update_self _ _ _, ?_⟩, ?_⟩
  · refine hp.chained.congr fun p hmem => hframe p fun hmem' => ?_
    have hnodup := h.nodup it.idx
    rw [hp.bucket, addresses_append, List.nodup_append'] at hnodup
    exact hnodup.2.2 hmem' hmem
  · rw [later, later, hbc]
    refine List.flatMap_congr fun j hj => ?_
    rw [Function.update_of_ne]
    have hle := (List.mem_range'_1.mp hj).1
    omega

/-- **A loop** comes to every entry that is ahead, and erases what it is told to. -/
theorem iterate_eq (erases : ℕ → Bool) (h : c.Laid cells ht) {it : Iterator}
    {before rest : List (ℕ × K × V)} (hp : Past c cells it before rest) {n : ℕ} (i : ℕ)
    (hn : (rest ++ later c cells it.idx).length < n) :
    ∃ c' ht', iterate erases n i c it =
        .ok ((rest ++ later c cells it.idx).map Prod.snd, c') ∧ c'.Models ht' ∧
      ∀ k, ht'.get k =
        if k ∈ erased erases i ((rest ++ later c cells it.idx).map Prod.snd) then none
        else ht.get k := by
  -- on the turns: one entry ahead is passed in each of them
  induction n generalizing c cells ht it before rest i with
  | zero => exact absurd hn (Nat.not_lt_zero _)
  | succ n ih =>
      rcases next_eq h hp (Nat.le_add_left _ _) with ⟨hnil, hnext⟩ |
        ⟨x, it', before', rest', hnext, hp', hcons⟩
      · rw [hnil]
        refine ⟨c, ht, ?_, ⟨_, h⟩, fun k => (if_neg List.not_mem_nil).symm⟩
        rw [iterate, hnext]
        rfl
      · rw [hcons] at hn ⊢
        have hn' := Nat.lt_of_succ_lt_succ hn
        have hx : x ∈ cells it'.idx := by
          rw [hp'.bucket]
          exact List.mem_append_left _ (List.mem_append_right _ List.mem_cons_self)
        obtain ⟨link, hlink⟩ := (h.chained _).mem hx
        rw [List.map_cons, erased]
        rcases herases : erases i with - | -
        · -- the entry stays
          obtain ⟨c', ht', hrun, hm, hget⟩ := ih h hp' (i + 1) hn'
          refine ⟨c', ht', ?_, hm, hget⟩
          rw [iterate, hnext]
          show (c.memory.read x.1 >>= _) = _
          rw [Memory.read_eq hlink]
          show (c.eraseIf (erases i) x.1 >>= _) = _
          rw [herases]
          show (iterate erases n (i + 1) c it' >>= _) = _
          rw [hrun]
          rfl
        · -- it is erased behind the iterator, which still points ahead of it
          obtain ⟨c₁, cells₁, herase, hl₁, hp₁, hlater⟩ := erase_past h hp'
          obtain ⟨c', ht', hrun, hm, hget⟩ := ih hl₁ hp₁ (i + 1) (by rwa [hlater])
          rw [hlater] at hrun hget
          refine ⟨c', ht', ?_, hm, fun k => ?_⟩
          · rw [iterate, hnext]
            show (c.memory.read x.1 >>= _) = _
            rw [Memory.read_eq hlink]
            show (c.eraseIf (erases i) x.1 >>= _) = _
            rw [herases, eraseIf, if_pos rfl, herase]
            show (iterate erases n (i + 1) c₁ it' >>= _) = _
            rw [hrun]
            rfl
          · rw [hget, Hashtable.get_erase, if_pos rfl]
            by_cases hk : k = x.2.1
            · subst hk
              rw [if_pos rfl, if_pos List.mem_cons_self, ite_self]
            · rw [if_neg hk]
              refine if_congr ?_ rfl rfl
              rw [List.mem_cons, or_iff_right hk]

/-- **The whole loop.** -/
theorem Models.loop (h : c.Models ht) (erases : ℕ → Bool) :
    ∃ c' ht', c.loop erases = .ok (ht.entries, c') ∧ c'.Models ht' ∧
      ∀ k, ht'.get k = if k ∈ erased erases 0 ht.entries then none else ht.get k := by
  obtain ⟨cells, h⟩ := h
  have hpos : 0 < c.bc := h.bc ▸ ht.pos
  have hp : Past c cells c.iterator [] (cells 0) :=
    ⟨hpos, (List.nil_append _).symm, h.chained 0⟩
  have hall : cells 0 ++ later c cells 0 = (List.range c.bc).flatMap cells := by
    obtain ⟨n, hn⟩ := Nat.exists_eq_succ_of_ne_zero hpos.ne'
    rw [later, hn, List.range_eq_range', List.range'_succ, List.flatMap_cons]
    rfl
  have hentries : (cells 0 ++ later c cells 0).map Prod.snd = ht.entries := by
    rw [hall, List.map_flatMap, Hashtable.entries, ← h.bc]
    exact List.flatMap_congr fun i _ => h.rows i
  have hlen : (cells 0 ++ later c cells 0).length < c.s + 1 := by
    have heq := congrArg List.length hentries
    rw [List.length_map] at heq
    rw [heq, h.s, ht.size_eq]
    exact Nat.lt_succ_self _
  have hrun := iterate_eq erases h hp 0 hlen
  rwa [show c.iterator.idx = 0 from rfl, hentries] at hrun

/-! ### Association lists -/

/-- What an association list says about a key. -/
def lookup (l : List (K × V)) (k : K) : Option V := (l.find? fun e => e.1 = k).map Prod.snd

/-- An association list without a key. -/
def without (l : List (K × V)) (k : K) : List (K × V) := l.filter fun e => e.1 ≠ k

/-- An association list with another value for a key. -/
def withValue (l : List (K × V)) (k : K) (v : V) : List (K × V) := (k, v) :: without l k

/-- **A table is what an association list says**: every operation that reads it finds just that. -/
structure Meets (c : HashChains K V) (l : List (K × V)) : Prop where
  unique : (l.map Prod.fst).Nodup
  buckets : ∀ i < c.bc, ∃ row, c.bucket i = .ok row ∧ ∀ e ∈ row, HashCode.hashCode e.1 % c.bc = i
  size : c.s = l.length
  get : ∀ k, c.get k = .ok (lookup l k)
  contains : ∀ k, c.contains k = .ok (lookup l k).isSome
  entries : ∃ es, c.entries = .ok es ∧ es.Perm l
  keys : ∃ ks, c.keys = .ok ks ∧ ks.Perm (l.map Prod.fst)
  appendKeys : ∀ v, ∃ ks, c.appendKeys v = .ok (v ++ ks) ∧ ks.Perm (l.map Prod.fst)

/-- **Loops too**: they come to every entry once, and leave those that they do not erase. -/
structure Implements (c : HashChains K V) (l : List (K × V)) : Prop where
  meets : Meets c l
  loops : ∀ erases, ∃ visited c', c.loop erases = .ok (visited, c') ∧ visited.Perm l ∧
    Meets c' (l.filter fun e => e.1 ∉ erased erases 0 visited)

/-- An association list of a table. -/
structure Lists (ht : Hashtable K V) (l : List (K × V)) : Prop where
  unique : (l.map Prod.fst).Nodup
  get : ∀ k, ht.get k = lookup l k

omit [HashCode K] in
theorem lookup_eq_some_iff {l : List (K × V)} (h : (l.map Prod.fst).Nodup) {k : K} {v : V} :
    lookup l k = some v ↔ (k, v) ∈ l := Hashtable.find?_key_eq_some_iff h

omit [HashCode K] [DecidableEq K] in
theorem nodup_filter {l : List (K × V)} (h : (l.map Prod.fst).Nodup) (p : K × V → Bool) :
    ((l.filter p).map Prod.fst).Nodup := h.sublist (List.filter_sublist.map _)

omit [HashCode K] in
/-- Leaving out keys. -/
theorem lookup_filter {l : List (K × V)} (p : K → Bool) (k : K) :
    lookup (l.filter fun e => p e.1) k = if p k = true then lookup l k else none := by
  rw [lookup, List.find?_filter]
  by_cases hp : p k = true
  · rw [if_pos hp, lookup]
    have hsame : (fun e : K × V => decide (p e.1 = true ∧ decide (e.1 = k) = true)) =
        fun e => decide (e.1 = k) := by
      funext e
      by_cases he : e.1 = k
      · rw [he]
        simp [hp]
      · simp [he]
    rw [hsame]
  · rw [if_neg hp, List.find?_eq_none.mpr]
    · rfl
    · intro e _ he
      rw [decide_eq_true_eq, decide_eq_true_eq] at he
      exact hp (he.2 ▸ he.1)

omit [HashCode K] in
theorem lookup_without (l : List (K × V)) (k k' : K) :
    lookup (without l k) k' = if k' = k then none else lookup l k' := by
  have h := lookup_filter (l := l) (fun k' => k' ≠ k) k'
  rw [without, h]
  by_cases hk : k' = k
  · simp [hk]
  · simp [hk]

omit [HashCode K] in
theorem lookup_withValue (l : List (K × V)) (k : K) (v : V) (k' : K) :
    lookup (withValue l k v) k' = if k' = k then some v else lookup l k' := by
  rw [withValue, lookup]
  by_cases hk : k' = k
  · subst hk
    rw [List.find?_cons_of_pos (by simp), if_pos rfl]
    rfl
  · rw [List.find?_cons_of_neg (by simpa using Ne.symm hk), if_neg hk]
    have h := lookup_without l k k'
    rwa [if_neg hk] at h

omit [HashCode K] in
theorem nodup_withValue {l : List (K × V)} (h : (l.map Prod.fst).Nodup) (k : K) (v : V) :
    ((withValue l k v).map Prod.fst).Nodup := by
  rw [withValue, List.map_cons, List.nodup_cons]
  refine ⟨fun hmem => ?_, nodup_filter h _⟩
  obtain ⟨e, he, hk⟩ := List.mem_map.mp hmem
  exact of_decide_eq_true (List.mem_filter.mp he).2 hk

/-- The entries of a table are those of its list. -/
theorem Lists.entries_perm {l : List (K × V)} (h : Lists ht l) : ht.entries.Perm l := by
  refine (List.perm_ext_iff_of_nodup (List.Nodup.of_map _ ht.nodup_entries)
    (List.Nodup.of_map _ h.unique)).mpr ?_
  rintro ⟨k, v⟩
  rw [ht.mem_entries_iff, h.get, lookup_eq_some_iff h.unique]

theorem Models.meets (h : c.Models ht) {l : List (K × V)} (hl : Lists ht l) : Meets c l := by
  have hperm := hl.entries_perm
  obtain ⟨cells, hlaid⟩ := id h
  have hget : ∀ k, c.get k = .ok (lookup l k) := fun k => hl.get k ▸ hlaid.get_eq k
  refine ⟨hl.unique, fun i _ => ⟨_, h.bucket_eq i, fun e he => ?_⟩, ?_, hget, fun k => ?_,
    ⟨_, h.collect_eq id [], ?_⟩, ⟨_, h.collect_eq Prod.fst [], ?_⟩,
    fun v => ⟨_, h.collect_eq Prod.fst v, hperm.map _⟩⟩
  · rw [hlaid.bc]
    exact ht.placed i e he
  · rw [hlaid.s, ht.size_eq]
    exact hperm.length_eq
  · rw [hlaid.contains_eq, hl.get]
  · rw [List.nil_append, List.map_id]
    exact hperm
  · rw [List.nil_append]
    exact hperm.map _

theorem Models.implements (h : c.Models ht) {l : List (K × V)} (hl : Lists ht l) :
    Implements c l := by
  refine ⟨h.meets hl, fun erases => ?_⟩
  obtain ⟨c', ht', hrun, hm, hget⟩ := h.loop erases
  refine ⟨_, c', hrun, hl.entries_perm, hm.meets ⟨nodup_filter hl.unique _, fun k => ?_⟩⟩
  rw [hget, hl.get, lookup_filter fun k => decide (k ∉ erased erases 0 ht.entries)]
  by_cases hk : k ∈ erased erases 0 ht.entries
  · simp [hk]
  · simp [hk]

/-! ### Runs -/

section Runs

variable [Inhabited V]

/-- What is done to one of many tables. -/
inductive Op (K V : Type)
  | set (i : ℕ) (k : K) (v : V)
  | modify (i : ℕ) (k : K) (f : V → V)
  | erase (i : ℕ) (k : K)
  | clear (i : ℕ)
  | assign (i j : ℕ)

/-- The operation on the tables, where `room i` tells when there is memory for a longer row. -/
def step (room : ℕ → ℕ → Bool) (w : ℕ → HashChains K V) :
    Op K V → Except Fault (ℕ → HashChains K V)
  | .set i k v => Function.update w i <$> (w i).set (room i) k v
  | .modify i k f => Function.update w i <$> (w i).modify (room i) k f
  | .erase i k => (fun r => Function.update w i r.1) <$> (w i).erase (.outside k)
  | .clear i => Function.update w i <$> (w i).clear
  | .assign i j =>
      Function.update w i <$> (w i).assign (room i) (if i = j then none else some (w j))

/-- The operation on association lists. -/
def listStep (A : ℕ → List (K × V)) : Op K V → ℕ → List (K × V)
  | .set i k v => Function.update A i (withValue (A i) k v)
  | .modify i k f =>
      Function.update A i (withValue (A i) k (f ((lookup (A i) k).getD default)))
  | .erase i k => Function.update A i (without (A i) k)
  | .clear i => Function.update A i []
  | .assign i j => Function.update A i (A j)

/-- Operations on new tables, with `bc i` buckets. -/
def run (room : ℕ → ℕ → Bool) (bc : ℕ → ℕ) (ops : List (Op K V)) :
    Except Fault (ℕ → HashChains K V) :=
  ops.foldlM (step room) fun i => empty (bc i)

/-- What the operations make of empty lists. -/
def listRun (ops : List (Op K V)) : ℕ → List (K × V) := ops.foldl listStep fun _ => []

/-- The tables are what the lists say. -/
def Agree (w : ℕ → HashChains K V) (A : ℕ → List (K × V)) : Prop :=
  ∀ i, ∃ ht, (w i).Models ht ∧ Lists ht (A i)

omit [Inhabited V] in
theorem Agree.update {w : ℕ → HashChains K V} {A : ℕ → List (K × V)} (h : Agree w A) (i : ℕ)
    {l : List (K × V)} (hm : c.Models ht) (hl : Lists ht l) :
    Agree (Function.update w i c) (Function.update A i l) := by
  intro j
  by_cases hj : j = i
  · subst hj
    rw [Function.update_self, Function.update_self]
    exact ⟨ht, hm, hl⟩
  · rw [Function.update_of_ne hj, Function.update_of_ne hj]
    exact h j

omit [DecidableEq K] [Inhabited V] in
theorem models_empty (bc : ℕ) (hbc : 0 < bc) :
    (empty bc : HashChains K V).Models (Hashtable.empty bc hbc) :=
  ⟨fun _ => [], rfl, rfl, fun _ => rfl, fun _ _ hp => absurd hp List.not_mem_nil, fun _ => rfl⟩

omit [Inhabited V] in
theorem lists_empty (bc : ℕ) (hbc : 0 < bc) :
    Lists (Hashtable.empty bc hbc : Hashtable K V) [] := ⟨List.nodup_nil, fun _ => rfl⟩

/-- **One operation**, that does not assign a table with entries to itself. -/
theorem Agree.step {w : ℕ → HashChains K V} {A : ℕ → List (K × V)} (h : Agree w A)
    (room : ℕ → ℕ → Bool) {op : Op K V} (hop : ∀ i, op = .assign i i → A i = []) :
    ∃ w', step room w op = .ok w' ∧ Agree w' (listStep A op) := by
  cases op with
  | set i k v =>
      obtain ⟨ht, hm, hl⟩ := h i
      obtain ⟨c', ht', hrun, hm', hget⟩ := hm.set (room i) k v
      refine ⟨_, ?_, h.update i hm' ⟨nodup_withValue hl.unique k v, fun k' => ?_⟩⟩
      · rw [HashChains.step, hrun]
        rfl
      · rw [hget, lookup_withValue, hl.get]
  | modify i k f =>
      obtain ⟨ht, hm, hl⟩ := h i
      obtain ⟨c', ht', hrun, hm', hget⟩ := hm.modify (room i) k f
      refine ⟨_, ?_, h.update i hm' ⟨nodup_withValue hl.unique k _, fun k' => ?_⟩⟩
      · rw [HashChains.step, hrun]
        rfl
      · rw [hget, lookup_withValue, hl.get, hl.get]
  | erase i k =>
      obtain ⟨ht, hm, hl⟩ := h i
      have hkey : (w i).readKey (.outside k) = .ok k := rfl
      obtain ⟨c', hrun, hm'⟩ := hm.erase hkey
      refine ⟨_, ?_, h.update i hm' ⟨nodup_filter hl.unique _, fun k' => ?_⟩⟩
      · rw [HashChains.step, hrun]
        rfl
      · rw [Hashtable.get_erase, hl.get]
        exact (lookup_without _ _ _).symm
  | clear i =>
      obtain ⟨ht, hm, -⟩ := h i
      obtain ⟨c', hrun, hm', -⟩ := hm.clear
      refine ⟨_, ?_, h.update i hm' (lists_empty _ _)⟩
      rw [HashChains.step, hrun]
      rfl
  | assign i j =>
      obtain ⟨ht, hm, -⟩ := h i
      by_cases hij : i = j
      · subst hij
        obtain ⟨c', hrun, hm'⟩ := hm.assign_self (room i)
        refine ⟨_, ?_, h.update i hm' (hop i rfl ▸ lists_empty _ _)⟩
        rw [HashChains.step, if_pos rfl, hrun]
        rfl
      · obtain ⟨ho, hmo, hlo⟩ := h j
        obtain ⟨c', ht', hrun, hm', hget⟩ := hm.assign (room i) hmo
        refine ⟨_, ?_, h.update i hm' ⟨hlo.unique, fun k => (hget k).trans (hlo.get k)⟩⟩
        rw [HashChains.step, if_neg hij, hrun]
        rfl

/-- A table that is assigned to itself is empty. -/
theorem Agree.assign_self {w w' : ℕ → HashChains K V} {A : ℕ → List (K × V)} (h : Agree w A)
    {room : ℕ → ℕ → Bool} {i : ℕ} (hrun : HashChains.step room w (.assign i i) = .ok w') {k : K} :
    (w' i).get k = .ok none := by
  obtain ⟨ht, hm, -⟩ := h i
  obtain ⟨c', hc', cells, hl⟩ := hm.assign_self (room i)
  rw [HashChains.step, if_pos rfl, hc'] at hrun
  obtain rfl : Function.update w i c' = w' := Except.ok.inj hrun
  rw [Function.update_self]
  exact hl.get_eq k

/-- No table with entries is assigned to itself. -/
def NoSelfAssignment (ops : List (Op K V)) : Prop :=
  ∀ pre i, pre ++ [.assign i i] <+: ops → listRun pre i = []

theorem run_append (room : ℕ → ℕ → Bool) (bc : ℕ → ℕ) (ops : List (Op K V)) (op : Op K V) :
    run room bc (ops ++ [op]) = run room bc ops >>= fun w => HashChains.step room w op := by
  rw [run, List.foldlM_append]
  show (run room bc ops >>= fun w => [op].foldlM (HashChains.step room) w) = _
  refine congrArg _ (funext fun w => ?_)
  rw [List.foldlM_cons]
  exact bind_pure _

omit [HashCode K] in
theorem listRun_append (ops : List (Op K V)) (op : Op K V) :
    listRun (ops ++ [op]) = listStep (listRun ops) op := by
  rw [listRun, List.foldl_append]
  rfl

/-- A run without such an assignment. -/
theorem agree_run (room : ℕ → ℕ → Bool) {bc : ℕ → ℕ} (hbc : ∀ i, 0 < bc i) {ops : List (Op K V)}
    (h : NoSelfAssignment ops) : ∃ w, run room bc ops = .ok w ∧ Agree w (listRun ops) := by
  induction ops using List.reverseRecOn with
  | nil => exact ⟨_, rfl, fun i => ⟨_, models_empty _ (hbc i), lists_empty _ _⟩⟩
  | append_singleton ops op ih =>
      obtain ⟨w, hw, hagree⟩ := ih fun pre i hpre => h pre i (hpre.trans (List.prefix_append _ _))
      have hop : ∀ i, op = .assign i i → listRun ops i = [] :=
        fun i hop => h ops i (hop ▸ List.prefix_rfl)
      obtain ⟨w', hw', hagree'⟩ := hagree.step room hop
      refine ⟨w', ?_, ?_⟩
      · rw [run_append, hw]
        exact hw'
      · rw [listRun_append]
        exact hagree'

/-- **A run of operations on hash tables**: after every one of them all tables are what the
association lists say, and loops over them do what they should, exactly if no table with entries is
assigned to itself. -/
theorem runs_iff (room : ℕ → ℕ → Bool) (bc : ℕ → ℕ) (hbc : ∀ i, 0 < bc i) (ops : List (Op K V)) :
    (∀ pre, pre <+: ops →
        ∃ w, run room bc pre = .ok w ∧ ∀ i, Implements (w i) (listRun pre i)) ↔
      NoSelfAssignment ops := by
  constructor
  · intro h
    induction ops using List.reverseRecOn with
    | nil =>
        intro pre i hpre
        exact absurd (List.prefix_nil.mp hpre) (List.append_ne_nil_of_right_ne_nil _ (by simp))
    | append_singleton ops op ih =>
        have hops := ih fun pre hpre => h pre (hpre.trans (List.prefix_append _ _))
        intro pre i hpre
        rcases List.prefix_concat_iff.mp hpre with heq | hpre
        · -- the last operation
          obtain ⟨rfl, hop⟩ := List.append_inj' heq rfl
          obtain rfl := List.singleton_injective hop
          obtain ⟨w, hw, hagree⟩ := agree_run room hbc hops
          obtain ⟨w', hw', himp⟩ := h _ List.prefix_rfl
          rw [run_append, hw] at hw'
          rw [List.eq_nil_iff_forall_not_mem]
          rintro ⟨k, v⟩ hmem
          have hmeets := (himp i).meets
          rw [listRun_append, listStep, Function.update_self] at hmeets
          have hget := hmeets.get k
          rw [hagree.assign_self hw', (lookup_eq_some_iff hmeets.unique).mpr hmem] at hget
          cases hget
        · exact hops pre i hpre
  · intro h pre hpre
    obtain ⟨w, hw, hagree⟩ := agree_run room hbc
      fun pre' i hpre' => h pre' i (hpre'.trans hpre)
    refine ⟨w, hw, fun i => ?_⟩
    obtain ⟨ht, hm, hl⟩ := hagree i
    exact hm.implements hl

end Runs

/-- The hash of small numbers. -/
instance : HashCode UInt16 := ⟨fun i => i.toNat * 0x9e3779b1⟩

/-- A table that is assigned to another one. -/
theorem runs_two : (∀ _ : ℕ, 0 < 64) ∧
    ∀ pre, pre <+: [Op.set 0 (5 : UInt16) (), Op.assign 1 0] →
      ∃ w, run (fun _ _ => true) (fun _ => 64) pre = .ok w ∧
        ∀ i, Implements (w i) (listRun pre i) := by
  have hpos : ∀ _ : ℕ, 0 < 64 := fun _ => Hashtable.buckets_pos
  refine ⟨hpos, (runs_iff (fun _ _ => true) (fun _ => 64) hpos _).mpr fun pre i hpre => ?_⟩
  have hmem := hpre.subset (List.mem_append_right pre (List.mem_singleton_self (Op.assign i i)))
  simp at hmem
  omega

/-- **A table that is assigned to itself** loses its entries. -/
theorem runs_self : ¬ ∀ (room : ℕ → ℕ → Bool) (bc : ℕ → ℕ), (∀ i, 0 < bc i) →
    ∀ (ops pre : List (Op UInt16 Unit)), pre <+: ops →
      ∃ w, run room bc pre = .ok w ∧ ∀ i, Implements (w i) (listRun pre i) := by
  intro h
  have hpos : ∀ _ : ℕ, 0 < 64 := fun _ => Hashtable.buckets_pos
  have hfirst : NoSelfAssignment [Op.set 0 (5 : UInt16) ()] := by
    intro pre i hpre
    have hmem := hpre.subset (List.mem_append_right pre (List.mem_singleton_self (Op.assign i i)))
    simp at hmem
  obtain ⟨w, hw, hagree⟩ := agree_run (fun _ _ => true) hpos hfirst
  obtain ⟨w', hw', himp⟩ := h (fun _ _ => true) (fun _ => 64) hpos
    ([Op.set 0 (5 : UInt16) ()] ++ [Op.assign 0 0]) _ List.prefix_rfl
  rw [run_append, hw] at hw'
  have hstep : step (fun _ _ => true) w (.assign 0 0) = .ok w' := hw'
  have hget := (himp 0).meets.get 5
  rw [hagree.assign_self hstep] at hget
  cases hget

end HashChains
