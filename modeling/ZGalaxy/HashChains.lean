/-
ZGalaxy/HashChains.lean

The hash table with its chained buckets.

Here a bucket is a link to cells in memory, as in the source: erasing and growing write links, and
a loop over a bucket follows them.  A cell is put at an address that has not been used before; no
operation compares addresses.  Each time that the row of buckets is to be doubled there may be no
memory for it, and then the row stays as it is.

`Models` relates such a table to a `Hashtable`, whose buckets are lists.  Main results, one for each
operation: it comes to an end, reads no memory that is not in use, and what it leaves models what
the operation makes of the lists.
-/
import ZGalaxy.Chains
import ZGalaxy.Hashtable

/-- A table: its memory, the first address that has not been used, and the row of buckets. -/
structure HashChains (K V : Type) where
  memory : Chains.Memory (K × V)
  unused : ℕ
  t : ℕ → Option ℕ
  bc : ℕ
  s : ℕ

/-- A key that is passed by reference: from outside the table, or from one of its cells. -/
inductive KeyRef (K : Type)
  | outside (k : K)
  | inside (p : ℕ)

namespace HashChains

open Chains HashCode

variable {K V : Type} [DecidableEq K] [HashCode K]

/-! ### Operations -/

/-- A new table with `bc` buckets. -/
def empty (bc : ℕ) : HashChains K V where
  memory := fun _ => none
  unused := 0
  t := fun _ => none
  bc := bc
  s := 0

variable (c : HashChains K V)

/-- No loop over a bucket takes more steps than there have been cells. -/
def steps : ℕ := c.unused + 1

/-- `_hc(k) % _bc`. -/
def idx (k : K) : ℕ := hashCode k % c.bc

/-- The loop over the bucket of a key. -/
def locate (k : K) : Except Fault (Option ℕ) :=
  find c.memory (fun e => e.1 = k) c.steps (c.t (c.idx k))

/-- `Hashtable::get`. -/
def get (k : K) : Except Fault (Option V) := do
  match ← c.locate k with
  | none => pure none
  | some p => do
      let b ← c.memory.read p
      pure (some b.val.2)

/-- `Hashtable::contains`. -/
def contains (k : K) : Except Fault Bool := do
  let b ← c.locate k
  pure b.isSome

/-- The key behind a reference. -/
def readKey : KeyRef K → Except Fault K
  | .outside k => .ok k
  | .inside p => do
      let b ← c.memory.read p
      pure b.val.1

/-- Whether an entry has the key behind a reference. -/
def hasKey (key : KeyRef K) (e : K × V) : Except Fault Bool := do
  let k ← c.readKey key
  pure (decide (e.1 = k))

/-- `Hashtable::erase`. -/
def erase (key : KeyRef K) : Except Fault (HashChains K V × Bool) := do
  let bidx := c.idx (← c.readKey key)
  match ← unlink c.memory (c.hasKey key) (c.t bidx) c.steps none (c.t bidx) with
  | none => pure (c, false)
  | some r =>
      pure ({ c with
        memory := r.1
        t := Function.update c.t bidx r.2
        s := c.s - 1 }, true)

/-- The cells of a bucket are put in front of the buckets of a row of `nc`. -/
def moveChain (nc : ℕ) : ℕ → Memory (K × V) → (ℕ → Option ℕ) → Option ℕ →
    Except Fault (Memory (K × V) × (ℕ → Option ℕ))
  | 0, _, _, _ => .error .endless
  | _ + 1, m, nt, none => .ok (m, nt)
  | n + 1, m, nt, some p => do
      let b ← m.read p
      let nidx := hashCode b.val.1 % nc
      moveChain nc n (m.write p { b with next := nt nidx }) (Function.update nt nidx (some p))
        b.next

/-- `_grow`, if there is memory. -/
def grow (room : Bool) : Except Fault (HashChains K V) :=
  if room then do
    let nc := c.bc * 2
    let r ← (List.range c.bc).foldlM (fun r i => moveChain nc c.steps r.1 r.2 (c.t i))
      (c.memory, fun _ => none)
    pure { c with
      memory := r.1
      t := r.2
      bc := nc }
  else pure c

/-- A new cell in front of the bucket of its key. -/
def push (k : K) (v : V) : HashChains K V where
  memory := c.memory.write c.unused ⟨(k, v), c.t (c.idx k)⟩
  unused := c.unused + 1
  t := Function.update c.t (c.idx k) (some c.unused)
  bc := c.bc
  s := c.s + 1

variable (room : ℕ → Bool)

/-- A new cell, after growing if the row is full. -/
def insert (k : K) (v : V) : Except Fault (HashChains K V) := do
  let c ← if c.bc ≤ c.s then c.grow (room c.unused) else pure c
  pure (c.push k v)

/-- What is done to the value of a cell in place. -/
def update (p : ℕ) (f : V → V) : Except Fault (HashChains K V) := do
  let b ← c.memory.read p
  pure { c with memory := c.memory.write p { b with val := (b.val.1, f b.val.2) } }

/-- `Hashtable::set`. -/
def set (k : K) (v : V) : Except Fault (HashChains K V) := do
  match ← c.locate k with
  | some p => c.update p fun _ => v
  | none => c.insert room k v

/-- `Hashtable::operator[]`: the table, and the address of the cell. -/
def index [Inhabited V] (k : K) : Except Fault (HashChains K V × ℕ) := do
  match ← c.locate k with
  | some p => pure (c, p)
  | none => do
      let c ← c.insert room k default
      -- the new cell is the latest one
      pure (c, c.unused - 1)

/-- `Hashtable::operator[]`, with what is then done to the value in place. -/
def modify [Inhabited V] (k : K) (f : V → V) : Except Fault (HashChains K V) := do
  let r ← c.index room k
  r.1.update r.2 f

/-- `Hashtable::clear`. -/
def clear : Except Fault (HashChains K V) :=
  if c.s = 0 then pure c
  else do
    let m ← (List.range c.bc).foldlM (fun m i => freeAll c.steps m (c.t i)) c.memory
    pure { c with
      memory := m
      t := fun _ => none
      s := 0 }

/-- The cells of a bucket of another table are set, one after another. -/
def setAll (m : Memory (K × V)) : ℕ → HashChains K V → Option ℕ → Except Fault (HashChains K V)
  | 0, _, _ => .error .endless
  | _ + 1, c, none => .ok c
  | n + 1, c, some p => do
      let b ← m.read p
      let c ← c.set room b.val.1 b.val.2
      setAll m n c b.next

/-- `operator=`: what is assigned is another table, or, if there is none, this table itself. -/
def assign (other : Option (HashChains K V)) : Except Fault (HashChains K V) := do
  let c ← c.clear
  let ht := other.getD c
  if ht.s = 0 then pure c
  else (List.range ht.bc).foldlM (fun c i => setAll room ht.memory ht.steps c (ht.t i)) c

/-- The entries of one bucket. -/
def bucket (i : ℕ) : Except Fault (List (K × V)) := readAll c.memory c.steps (c.t i)

/-- The loops over all buckets, with what they append for each entry. -/
def collect {β : Type} (f : K × V → β) (l : List β) : Except Fault (List β) :=
  if c.s = 0 then pure l
  else (List.range c.bc).foldlM (fun l i => do
    let b ← c.bucket i
    pure (l ++ b.map f)) l

/-- `Hashtable::keys`. -/
def keys : Except Fault (List K) := c.collect Prod.fst []

/-- `Hashtable::appendKeys`. -/
def appendKeys (v : List K) : Except Fault (List K) := c.collect Prod.fst v

/-- `Hashtable::entries`. -/
def entries : Except Fault (List (K × V)) := c.collect id []

/-! ### What a table models -/

variable {c} {cells : ℕ → List (ℕ × K × V)} {ht : Hashtable K V}

omit [DecidableEq K] in
/-- The buckets are chains of `cells`, and these hold what is in the lists of `ht`. -/
structure Laid (c : HashChains K V) (cells : ℕ → List (ℕ × K × V)) (ht : Hashtable K V) :
    Prop where
  bc : c.bc = ht.bc
  s : c.s = ht.s
  chained : ∀ i, Chained c.memory (c.t i) (cells i)
  below : ∀ i, ∀ p ∈ addresses (cells i), p < c.unused
  rows : ∀ i, (cells i).map Prod.snd = ht.t i

/-- **The table models** the one of lists. -/
def Models (c : HashChains K V) (ht : Hashtable K V) : Prop := ∃ cells, c.Laid cells ht

namespace Laid

variable (h : c.Laid cells ht)
include h

omit [DecidableEq K] in
theorem idx (k : K) : c.idx k = ht.idx k := by rw [HashChains.idx, h.bc, Hashtable.idx]

omit [DecidableEq K] in
/-- A cell is in the bucket of its key. -/
theorem placed {i : ℕ} {x : ℕ × K × V} (hx : x ∈ cells i) : ht.idx x.2.1 = i := by
  have hmem : x.2 ∈ ht.t i := h.rows i ▸ List.mem_map_of_mem hx
  exact ht.placed i _ hmem

omit [DecidableEq K] in
/-- There is one cell at an address. -/
theorem unique {i j : ℕ} {x y : ℕ × K × V} (hx : x ∈ cells i) (hy : y ∈ cells j)
    (heq : x.1 = y.1) : x = y ∧ i = j := by
  obtain ⟨next, hnext⟩ := (h.chained i).mem hx
  obtain ⟨next', hnext'⟩ := (h.chained j).mem hy
  have hval : x.2 = y.2 := by
    rw [heq, hnext', Option.some.injEq, Cell.mk.injEq] at hnext
    exact hnext.1.symm
  refine ⟨Prod.ext heq hval, ?_⟩
  rw [← h.placed hx, ← h.placed hy, hval]

omit [DecidableEq K] in
theorem nodup_keys (i : ℕ) : ((cells i).map fun x => x.2.1).Nodup := by
  have hn := ht.nodup i
  rw [← h.rows i, List.map_map] at hn
  exact hn

omit [DecidableEq K] in
theorem nodup (i : ℕ) : (addresses (cells i)).Nodup :=
  (List.Nodup.of_map _ (h.nodup_keys i)).map_on fun _ hx _ hy heq => (h.unique hx hy heq).1

omit [DecidableEq K] [HashCode K] h in
theorem addresses_flatMap (is : List ℕ) :
    addresses (is.flatMap cells) = is.flatMap fun i => addresses (cells i) :=
  List.map_flatMap

omit [DecidableEq K] in
/-- No address occurs in two buckets. -/
theorem nodup_flatMap {is : List ℕ} (his : is.Nodup) : (addresses (is.flatMap cells)).Nodup := by
  rw [Laid.addresses_flatMap, List.nodup_flatMap]
  refine ⟨fun i _ => h.nodup i, his.imp fun {i j} hij => List.disjoint_left.mpr ?_⟩
  intro p hp hp'
  obtain ⟨x, hx, rfl⟩ := List.mem_map.mp hp
  obtain ⟨y, hy, heq⟩ := List.mem_map.mp hp'
  exact hij (h.unique hx hy heq.symm).2

omit [DecidableEq K] in
theorem length_lt (i : ℕ) : (cells i).length < c.steps :=
  Nat.lt_succ_of_le (length_le_of_nodup (h.nodup i) (h.below i))

omit [DecidableEq K] in
/-- A new address is in no bucket. -/
theorem unused_notMem (i : ℕ) : c.unused ∉ addresses (cells i) :=
  fun hmem => Nat.lt_irrefl _ (h.below i _ hmem)

/-! ### Looking up -/

theorem locate_eq (k : K) :
    c.locate k = .ok (((cells (ht.idx k)).find? fun x => x.2.1 = k).map Prod.fst) := by
  rw [locate, h.idx]
  exact (h.chained _).find_eq _ (h.length_lt _)

theorem table_get_eq (k : K) :
    ht.get k = ((cells (ht.idx k)).find? fun x => x.2.1 = k).map fun x => x.2.2 := by
  rw [Hashtable.get, ← h.rows, List.find?_map, Option.map_map]
  rfl

/-- What the search for a key finds. -/
theorem locate_cases (k : K) :
    (c.locate k = .ok none ∧ ht.get k = none) ∨
      ∃ x ∈ cells (ht.idx k), x.2.1 = k ∧ c.locate k = .ok (some x.1) ∧ ht.get k = some x.2.2 := by
  rcases hfind : (cells (ht.idx k)).find? fun x => x.2.1 = k with - | x
  · rw [h.locate_eq, h.table_get_eq, hfind]
    exact Or.inl ⟨rfl, rfl⟩
  · rw [h.locate_eq, h.table_get_eq, hfind]
    have hkey := List.find?_some hfind
    exact Or.inr ⟨x, List.mem_of_find?_eq_some hfind, of_decide_eq_true hkey, rfl, rfl⟩

theorem get_eq (k : K) : c.get k = .ok (ht.get k) := by
  rcases h.locate_cases k with ⟨hloc, hget⟩ | ⟨x, hx, -, hloc, hget⟩
  · rw [HashChains.get, hloc, hget]
    rfl
  · obtain ⟨next, hnext⟩ := (h.chained _).mem hx
    rw [HashChains.get, hloc, hget]
    show (c.memory.read x.1 >>= _) = _
    rw [Memory.read_eq hnext]
    rfl

theorem contains_eq (k : K) : c.contains k = .ok (ht.get k).isSome := by
  rcases h.locate_cases k with ⟨hloc, hget⟩ | ⟨x, -, -, hloc, hget⟩
  · rw [contains, hloc, hget]
    rfl
  · rw [contains, hloc, hget]
    rfl

/-! ### Changing values -/

/-- A value is changed in place. -/
theorem update {x : ℕ × K × V} (hx : x ∈ cells (ht.idx x.2.1)) (f : V → V) :
    ∃ c' cells', c.update x.1 f = .ok c' ∧ c'.Laid cells' (ht.set x.2.1 (f x.2.2)) := by
  obtain ⟨next, hnext⟩ := (h.chained _).mem hx
  have hget : ht.get x.2.1 = some x.2.2 := by
    have hmem : x.2 ∈ ht.t (ht.idx x.2.1) := h.rows (ht.idx x.2.1) ▸ List.mem_map_of_mem hx
    exact (Hashtable.find?_key_eq_some_iff (ht.nodup _)).mpr hmem
  have hset : ht.set x.2.1 (f x.2.2) = ht.withBucket x.2.1
      (Hashtable.replace x.2.1 (f x.2.2) (ht.t (ht.idx x.2.1))) _ _ :=
    dif_neg (by rw [hget]; exact Option.some_ne_none _)
  refine ⟨{ c with memory := c.memory.write x.1 ⟨(x.2.1, f x.2.2), next⟩ },
    fun i => (cells i).map fun y => if y.1 = x.1 then (y.1, (x.2.1, f x.2.2)) else y, ?_, ?_⟩
  · rw [HashChains.update, Memory.read_eq hnext]
    rfl
  · rw [hset]
    refine ⟨h.bc, ?_, fun i => (h.chained i).setVal hnext _, fun i p hp => ?_, fun i => ?_⟩
    · show c.s = ht.s + (Hashtable.replace _ _ _).length - _
      rw [Hashtable.replace, List.length_map, Nat.add_sub_cancel]
      exact h.s
    · obtain ⟨y', hy', rfl⟩ := List.mem_map.mp hp
      obtain ⟨y, hy, rfl⟩ := List.mem_map.mp hy'
      have hfst : (if y.1 = x.1 then (y.1, (x.2.1, f x.2.2)) else y).1 = y.1 := by
        split_ifs <;> rfl
      rw [hfst]
      exact h.below i _ (List.mem_map_of_mem hy)
    · show _ = Function.update ht.t (ht.idx x.2.1) _ i
      by_cases hi : i = ht.idx x.2.1
      · subst hi
        rw [Function.update_self, ← h.rows, Hashtable.replace, List.map_map, List.map_map]
        refine List.map_congr_left fun y hy => ?_
        show (if y.1 = x.1 then (y.1, (x.2.1, f x.2.2)) else y).2 =
          if y.2.1 = x.2.1 then (y.2.1, f x.2.2) else y.2
        by_cases hyx : y.1 = x.1
        · obtain rfl := (h.unique hy hx hyx).1
          rw [if_pos rfl, if_pos rfl]
        · rw [if_neg hyx, if_neg fun hkey => hyx ?_]
          exact congrArg Prod.fst (List.inj_on_of_nodup_map (h.nodup_keys _) hy hx hkey)
      · rw [Function.update_of_ne hi, ← h.rows, List.map_map]
        refine List.map_congr_left fun y hy => ?_
        show (if y.1 = x.1 then (y.1, (x.2.1, f x.2.2)) else y).2 = y.2
        rw [if_neg fun hyx => hi (h.unique hy hx hyx).2]

/-- A new cell is in front of its bucket. -/
theorem push {k : K} (hk : ht.get k = none) (v : V) :
    (c.push k v).Laid (Function.update cells (ht.idx k) ((c.unused, (k, v)) :: cells (ht.idx k)))
      (ht.push k v hk) := by
  have hidx := h.idx k
  refine ⟨h.bc, ?_, fun i => ?_, fun i p hp => ?_, fun i => ?_⟩
  · show c.s + 1 = ht.s + ((k, v) :: ht.t (ht.idx k)).length - (ht.t (ht.idx k)).length
    rw [h.s, List.length_cons]
    omega
  · show Chained (c.memory.write c.unused ⟨(k, v), c.t (c.idx k)⟩)
      (Function.update c.t (c.idx k) (some c.unused) i) _
    rw [hidx]
    by_cases hi : i = ht.idx k
    · subst hi
      rw [Function.update_self, Function.update_self]
      exact (h.chained _).push (h.unused_notMem _) _
    · rw [Function.update_of_ne hi, Function.update_of_ne hi]
      exact (h.chained _).write (h.unused_notMem _) _
  · show p < c.unused + 1
    by_cases hi : i = ht.idx k
    · subst hi
      rw [Function.update_self, addresses_cons] at hp
      rcases List.mem_cons.mp hp with rfl | hp
      · exact Nat.lt_succ_self _
      · exact Nat.lt_succ_of_lt (h.below _ p hp)
    · rw [Function.update_of_ne hi] at hp
      exact Nat.lt_succ_of_lt (h.below _ p hp)
  · show _ = Function.update ht.t (ht.idx k) _ i
    by_cases hi : i = ht.idx k
    · subst hi
      rw [Function.update_self, Function.update_self, List.map_cons, h.rows]
    · rw [Function.update_of_ne hi, Function.update_of_ne hi, h.rows]

end Laid

/-! ### Growing -/

/-- Where the cells of a list go in a row of `nc`: each is put in front. -/
def dealt (nc : ℕ) (l : List (ℕ × K × V)) (new : ℕ → List (ℕ × K × V)) (j : ℕ) :
    List (ℕ × K × V) :=
  (l.filter fun x => hashCode x.2.1 % nc = j).reverse ++ new j

omit [DecidableEq K] in
theorem dealt_cons (nc : ℕ) (x : ℕ × K × V) (l : List (ℕ × K × V)) (new : ℕ → List (ℕ × K × V)) :
    dealt nc (x :: l) new = dealt nc l
      (Function.update new (hashCode x.2.1 % nc) (x :: new (hashCode x.2.1 % nc))) := by
  funext j
  rw [dealt, dealt]
  by_cases hj : hashCode x.2.1 % nc = j
  · subst hj
    rw [List.filter_cons_of_pos (by simp), List.reverse_cons, Function.update_self,
      List.append_assoc]
    rfl
  · rw [List.filter_cons_of_neg (by simpa using hj), Function.update_of_ne (Ne.symm hj)]

omit [DecidableEq K] in
theorem dealt_append (nc : ℕ) (l l' : List (ℕ × K × V)) (new : ℕ → List (ℕ × K × V)) :
    dealt nc (l ++ l') new = dealt nc l' (dealt nc l new) := by
  funext j
  rw [dealt, dealt, dealt, List.filter_append, List.reverse_append, List.append_assoc]

omit [DecidableEq K] in
theorem mem_addresses_dealt {nc : ℕ} {l : List (ℕ × K × V)} {new : ℕ → List (ℕ × K × V)} {j p : ℕ}
    (hp : p ∈ addresses (dealt nc l new j)) : p ∈ addresses l ∨ p ∈ addresses (new j) := by
  rw [dealt, addresses_append, List.mem_append] at hp
  refine hp.imp_left fun hp => ?_
  obtain ⟨x, hx, rfl⟩ := List.mem_map.mp hp
  exact List.mem_map_of_mem (List.mem_of_mem_filter (List.mem_reverse.mp hx))

omit [DecidableEq K] in
/-- **Moving a bucket** puts its cells in front of the new buckets, and writes no other cell. -/
theorem moveChain_eq {m : Memory (K × V)} {nt : ℕ → Option ℕ} {new : ℕ → List (ℕ × K × V)}
    {b : Option ℕ} {l : List (ℕ × K × V)} (nc : ℕ) (hl : Chained m b l)
    (hnew : ∀ j, Chained m (nt j) (new j)) (hn : (addresses l).Nodup)
    (hdisj : ∀ j, ∀ p ∈ addresses (new j), p ∉ addresses l) {n : ℕ} (hlen : l.length < n) :
    ∃ r, moveChain nc n m nt b = .ok r ∧ (∀ j, Chained r.1 (r.2 j) (dealt nc l new j)) ∧
      ∀ p ∉ addresses l, r.1 p = m p := by
  -- on the chain: each cell is put in front of its new one, which grows
  induction l generalizing m nt new b n with
  | nil =>
      obtain ⟨n, rfl⟩ := Nat.exists_eq_succ_of_ne_zero (Nat.ne_of_gt hlen)
      rw [show b = none from hl]
      exact ⟨_, rfl, hnew, fun _ _ => rfl⟩
  | cons x l ih =>
      obtain ⟨n, rfl⟩ := Nat.exists_eq_succ_of_ne_zero (Nat.ne_of_gt (Nat.zero_lt_of_lt hlen))
      obtain ⟨rfl, next, hx, hchain⟩ := hl
      rw [addresses_cons, List.nodup_cons] at hn
      have hxnew : ∀ j, x.1 ∉ addresses (new j) :=
        fun j hmem => hdisj j _ hmem List.mem_cons_self
      let nidx := hashCode x.2.1 % nc
      have hnew' : ∀ j, Chained (m.write x.1 ⟨x.2, nt nidx⟩)
          (Function.update nt nidx (some x.1) j)
          (Function.update new nidx (x :: new nidx) j) := by
        intro j
        by_cases hj : j = nidx
        · rw [hj, Function.update_self, Function.update_self]
          exact (hnew _).push (hxnew _) _
        · rw [Function.update_of_ne hj, Function.update_of_ne hj]
          exact (hnew j).write (hxnew j) _
      have hdisj' : ∀ j, ∀ p ∈ addresses (Function.update new nidx (x :: new nidx) j),
          p ∉ addresses l := by
        intro j p hp hmem
        by_cases hj : j = nidx
        · rw [hj, Function.update_self, addresses_cons] at hp
          rcases List.mem_cons.mp hp with rfl | hp
          · exact hn.1 hmem
          · exact hdisj _ p hp (List.mem_cons_of_mem _ hmem)
        · rw [Function.update_of_ne hj] at hp
          exact hdisj j p hp (List.mem_cons_of_mem _ hmem)
      obtain ⟨r, hr, hchains, hframe⟩ := ih (hchain.write hn.1 _) hnew' hn.2 hdisj'
        (Nat.lt_of_succ_lt_succ hlen)
      refine ⟨r, ?_, fun j => ?_, fun p hp => ?_⟩
      · rw [moveChain, Memory.read_eq hx]
        exact hr
      · rw [dealt_cons]
        exact hchains j
      · rw [addresses_cons, List.mem_cons, not_or] at hp
        exact (hframe p hp.2).trans (Memory.write_of_ne hp.1 _)

omit [DecidableEq K] in
/-- Moving some of the buckets, one after another. -/
theorem moveChains_eq {t : ℕ → Option ℕ} {cells : ℕ → List (ℕ × K × V)} {is : List ℕ}
    {r : Memory (K × V) × (ℕ → Option ℕ)} {new : ℕ → List (ℕ × K × V)} (nc : ℕ) {n : ℕ}
    (hcells : ∀ i ∈ is, Chained r.1 (t i) (cells i)) (hlen : ∀ i, (cells i).length < n)
    (hnew : ∀ j, Chained r.1 (r.2 j) (new j)) (hn : (addresses (is.flatMap cells)).Nodup)
    (hdisj : ∀ j, ∀ p ∈ addresses (new j), p ∉ addresses (is.flatMap cells)) :
    ∃ r', is.foldlM (fun r i => moveChain nc n r.1 r.2 (t i)) r = .ok r' ∧
      ∀ j, Chained r'.1 (r'.2 j) (dealt nc (is.flatMap cells) new j) := by
  -- on the buckets: those still to move keep apart from what was moved
  induction is generalizing r new with
  | nil => exact ⟨_, rfl, hnew⟩
  | cons i is ih =>
      rw [List.flatMap_cons, addresses_append, List.nodup_append'] at hn
      obtain ⟨hni, hnis, hsep⟩ := hn
      have hmem : ∀ {p}, p ∈ addresses (cells i) ∨ p ∈ addresses (is.flatMap cells) →
          p ∈ addresses ((i :: is).flatMap cells) := by
        intro p hp
        rw [List.flatMap_cons, addresses_append, List.mem_append]
        exact hp
      obtain ⟨r₁, hr₁, hchains, hframe⟩ := moveChain_eq nc (hcells i List.mem_cons_self) hnew hni
        (fun j p hp hp' => hdisj j p hp (hmem (Or.inl hp'))) (hlen i)
      have hcells' : ∀ j ∈ is, Chained r₁.1 (t j) (cells j) := by
        refine fun j hj => (hcells j (List.mem_cons_of_mem _ hj)).congr fun p hp => hframe p ?_
        intro hpi
        refine hsep hpi ?_
        obtain ⟨x, hx, rfl⟩ := List.mem_map.mp hp
        exact List.mem_map_of_mem (List.mem_flatMap.mpr ⟨j, hj, hx⟩)
      obtain ⟨r', hr', hchains'⟩ := ih hcells' hchains hnis (by
        intro j p hp hp'
        rcases mem_addresses_dealt hp with hp | hp
        · exact hsep hp hp'
        · exact hdisj j p hp (hmem (Or.inr hp')))
      refine ⟨r', ?_, fun j => ?_⟩
      · rw [List.foldlM_cons, hr₁]
        exact hr'
      · rw [List.flatMap_cons, dealt_append]
        exact hchains' j

namespace Laid

variable (h : c.Laid cells ht)
include h

omit [DecidableEq K] in
/-- The row is doubled. -/
theorem grow : ∃ c' cells', c.grow true = .ok c' ∧ c'.Laid cells' ht.grow := by
  have hpos : ∀ _ : ℕ, ∀ p ∈ addresses ([] : List (ℕ × K × V)),
      p ∉ addresses ((List.range c.bc).flatMap cells) :=
    fun _ p hp => absurd hp List.not_mem_nil
  have hnew : ∀ j : ℕ, Chained c.memory ((fun _ : ℕ => none) j)
      ((fun _ : ℕ => ([] : List (ℕ × K × V))) j) := fun _ => rfl
  obtain ⟨r, hr, hchains⟩ := moveChains_eq (r := (c.memory, fun _ => none)) (c.bc * 2)
    (fun i _ => h.chained i) h.length_lt hnew (h.nodup_flatMap (List.nodup_range (n := c.bc))) hpos
  refine ⟨{ c with memory := r.1, t := r.2, bc := c.bc * 2 },
    dealt (c.bc * 2) ((List.range c.bc).flatMap cells) fun _ => [], ?_, ?_⟩
  · rw [HashChains.grow, if_pos rfl]
    dsimp only
    rw [hr]
    rfl
  · refine ⟨?_, h.s, hchains, fun i p hp => ?_, fun i => ?_⟩
    · show c.bc * 2 = ht.bc * 2
      rw [h.bc]
    · rcases mem_addresses_dealt hp with hp | hp
      · rw [Laid.addresses_flatMap] at hp
        obtain ⟨j, -, hp⟩ := List.mem_flatMap.mp hp
        exact h.below j p hp
      · exact absurd hp List.not_mem_nil
    · show _ = (ht.entries.filter fun e => hashCode e.1 % (ht.bc * 2) = i).reverse
      have hentries : ((List.range c.bc).flatMap cells).map Prod.snd = ht.entries := by
        rw [List.map_flatMap, Hashtable.entries, h.bc]
        exact List.flatMap_congr fun j _ => h.rows j
      rw [dealt, List.append_nil, List.map_reverse, ← hentries, List.filter_map, h.bc]
      rfl

/-- A new cell, after growing where there is memory for it. -/
theorem insert {k : K} (hk : ht.get k = none) (room : ℕ → Bool) (v : V) :
    ∃ c' cells' ht', c.insert room k v = .ok c' ∧ c'.Laid cells' ht' ∧
      (∀ k', ht'.get k' = if k' = k then some v else ht.get k') ∧
      (c'.unused - 1, k, v) ∈ cells' (ht'.idx k) := by
  have hmem : ∀ {c : HashChains K V} {cells : ℕ → List (ℕ × K × V)} {ht' : Hashtable K V},
      (c.unused, k, v) ∈ Function.update cells (ht'.idx k)
        ((c.unused, (k, v)) :: cells (ht'.idx k)) (ht'.idx k) := by
    intro c cells ht'
    rw [Function.update_self]
    exact List.mem_cons_self
  rw [HashChains.insert]
  by_cases hfull : c.bc ≤ c.s ∧ room c.unused = true
  · obtain ⟨c', cells', hc', hl⟩ := h.grow
    have hk' : ht.grow.get k = none := by rw [Hashtable.get_grow, hk]
    refine ⟨c'.push k v, _, ht.grow.push k v hk', ?_, hl.push hk' v, fun k' => ?_, hmem⟩
    · rw [if_pos hfull.1, hfull.2, hc']
      rfl
    · rw [Hashtable.get_push, Hashtable.get_grow]
  · refine ⟨c.push k v, _, ht.push k v hk, ?_, h.push hk v, Hashtable.get_push ht v hk, hmem⟩
    by_cases hs : c.bc ≤ c.s
    · have hroom : room c.unused = false := Bool.eq_false_iff.mpr fun hroom => hfull ⟨hs, hroom⟩
      rw [if_pos hs, hroom]
      rfl
    · rw [if_neg hs]
      rfl

end Laid

/-! ### Setting -/

section Setting

variable (h : c.Models ht) (room : ℕ → Bool)
include h

/-- **`set`.** -/
theorem Models.set (k : K) (v : V) :
    ∃ c' ht', c.set room k v = .ok c' ∧ c'.Models ht' ∧
      ∀ k', ht'.get k' = if k' = k then some v else ht.get k' := by
  obtain ⟨cells, h⟩ := h
  rcases h.locate_cases k with ⟨hloc, hget⟩ | ⟨x, hx, rfl, hloc, hget⟩
  · obtain ⟨c', cells', ht', hc', hl, hget', -⟩ := h.insert hget room v
    refine ⟨c', ht', ?_, ⟨_, hl⟩, hget'⟩
    rw [HashChains.set, hloc]
    exact hc'
  · obtain ⟨c', cells', hc', hl⟩ := h.update hx fun _ => v
    refine ⟨c', _, ?_, ⟨_, hl⟩, ht.get_set _ v⟩
    rw [HashChains.set, hloc]
    exact hc'

/-- **`operator[]`**, and what is then done to the value. -/
theorem Models.modify [Inhabited V] (k : K) (f : V → V) :
    ∃ c' ht', c.modify room k f = .ok c' ∧ c'.Models ht' ∧
      ∀ k', ht'.get k' = if k' = k then some (f ((ht.get k).getD default)) else ht.get k' := by
  obtain ⟨cells, h⟩ := h
  rcases h.locate_cases k with ⟨hloc, hget⟩ | ⟨x, hx, rfl, hloc, hget⟩
  · obtain ⟨c₁, cells₁, ht₁, hc₁, hl₁, hget₁, hmem⟩ := h.insert hget room default
    obtain ⟨c', cells', hc', hl⟩ := hl₁.update (x := (c₁.unused - 1, k, default)) hmem f
    refine ⟨c', _, ?_, ⟨_, hl⟩, fun k' => ?_⟩
    · rw [HashChains.modify, index, hloc]
      show ((c.insert room k default >>= fun c => pure (c, c.unused - 1)) >>= _) = _
      rw [hc₁]
      exact hc'
    · rw [Hashtable.get_set, hget₁, hget]
      split_ifs <;> rfl
  · obtain ⟨c', cells', hc', hl⟩ := h.update hx f
    refine ⟨c', _, ?_, ⟨_, hl⟩, fun k' => ?_⟩
    · rw [HashChains.modify, index, hloc]
      exact hc'
    · rw [Hashtable.get_set, hget]
      rfl

end Setting

/-! ### Clearing -/

omit [DecidableEq K] in
omit [HashCode K] in
/-- Giving back some of the buckets. -/
theorem freeAlls_ok {t : ℕ → Option ℕ} {cells : ℕ → List (ℕ × K × V)} {is : List ℕ}
    {m : Memory (K × V)} {n : ℕ} (hcells : ∀ i ∈ is, Chained m (t i) (cells i))
    (hlen : ∀ i, (cells i).length < n) (hn : (addresses (is.flatMap cells)).Nodup) :
    ∃ m', is.foldlM (fun m i => freeAll n m (t i)) m = .ok m' := by
  induction is generalizing m with
  | nil => exact ⟨m, rfl⟩
  | cons i is ih =>
      rw [List.flatMap_cons, addresses_append, List.nodup_append'] at hn
      obtain ⟨hni, hnis, hsep⟩ := hn
      obtain ⟨m', hm', hframe⟩ := (hcells i List.mem_cons_self).freeAll_eq hni (hlen i)
      obtain ⟨m'', hm''⟩ := ih (m := m') (fun j hj => by
        refine (hcells j (List.mem_cons_of_mem _ hj)).congr fun p hp => hframe p ?_
        intro hpi
        refine hsep hpi ?_
        obtain ⟨x, hx, rfl⟩ := List.mem_map.mp hp
        exact List.mem_map_of_mem (List.mem_flatMap.mpr ⟨j, hj, hx⟩)) hnis
      refine ⟨m'', ?_⟩
      rw [List.foldlM_cons, hm']
      exact hm''

omit [DecidableEq K] in
/-- A table without entries has empty buckets. -/
theorem Laid.cells_eq_nil (h : c.Laid cells ht) (hs : c.s = 0) (i : ℕ) : cells i = [] := by
  have hlen : ht.entries.length = 0 := by rw [Hashtable.entries, ← ht.size_eq, ← h.s, hs]
  rw [List.eq_nil_iff_forall_not_mem]
  intro x hx
  have hmem : x.2 ∈ ht.t (ht.idx x.2.1) := by
    rw [h.placed hx, ← h.rows i]
    exact List.mem_map_of_mem hx
  have hentry := ht.mem_entries.mpr hmem
  rw [List.length_eq_zero_iff.mp hlen] at hentry
  exact List.not_mem_nil hentry

omit [DecidableEq K] in
/-- **`clear`.** -/
theorem Models.clear (h : c.Models ht) :
    ∃ c', c.clear = .ok c' ∧ c'.Models (Hashtable.empty ht.bc ht.pos) ∧ c'.s = 0 := by
  obtain ⟨cells, h⟩ := h
  rw [HashChains.clear]
  by_cases hs : c.s = 0
  · refine ⟨c, if_pos hs, ⟨cells, h.bc, hs, h.chained, h.below, fun i => ?_⟩, hs⟩
    rw [h.cells_eq_nil hs]
    rfl
  · obtain ⟨m, hm⟩ := freeAlls_ok (fun i _ => h.chained i) h.length_lt
      (h.nodup_flatMap (List.nodup_range (n := c.bc)))
    refine ⟨{ c with memory := m, t := fun _ => none, s := 0 }, ?_,
      ⟨fun _ => [], h.bc, rfl, fun _ => rfl, fun _ p hp => absurd hp List.not_mem_nil,
        fun _ => rfl⟩, rfl⟩
    rw [if_neg hs, hm]
    rfl

/-! ### Erasing -/

omit [HashCode K] in
theorem hasKey_eq {key : KeyRef K} {k : K} (hkey : c.readKey key = .ok k) (e : K × V) :
    c.hasKey key e = .ok (decide (e.1 = k)) := by
  rw [hasKey, hkey]
  rfl

omit [HashCode K] in
/-- Erasing an absent key from a bucket. -/
theorem filter_of_absent {l : List (ℕ × K × V)} {k : K} (h : ∀ y ∈ l, y.2.1 ≠ k) :
    (l.map Prod.snd).filter (fun e => e.1 ≠ k) = l.map Prod.snd := by
  rw [List.filter_eq_self]
  intro e he
  obtain ⟨y, hy, rfl⟩ := List.mem_map.mp he
  exact decide_eq_true (h y hy)

namespace Laid

variable (h : c.Laid cells ht) {key : KeyRef K} {k : K} (hkey : c.readKey key = .ok k)
include h hkey

/-- An absent key. -/
theorem erase_of_absent (hk : ht.get k = none) :
    c.erase key = .ok (c, false) ∧ c.Laid cells (ht.erase k) := by
  have habsent : ∀ y ∈ cells (ht.idx k), y.2.1 ≠ k := by
    intro y hy heq
    refine ht.notMem_of_get_eq_none hk (List.mem_map.mpr ⟨y.2, ?_, heq⟩)
    exact h.rows (ht.idx k) ▸ List.mem_map_of_mem hy
  have hsame : (ht.t (ht.idx k)).filter (fun e => e.1 ≠ k) = ht.t (ht.idx k) := by
    rw [← h.rows (ht.idx k)]
    exact filter_of_absent habsent
  constructor
  · have hrun := (h.chained (ht.idx k)).unlink_none
      (fun y hy => (hasKey_eq hkey y.2).trans
        (congrArg Except.ok (decide_eq_false (habsent y hy)))) (h.length_lt _) (c.t (ht.idx k)) none
    rw [HashChains.erase, hkey]
    show (unlink c.memory _ (c.t (c.idx k)) c.steps none (c.t (c.idx k)) >>= _) = _
    rw [h.idx, hrun]
    rfl
  · refine ⟨h.bc, ?_, h.chained, h.below, fun i => ?_⟩
    · show c.s = ht.s + (List.filter _ _).length - _
      rw [hsame, Nat.add_sub_cancel]
      exact h.s
    · show _ = Function.update ht.t (ht.idx k) _ i
      rw [hsame, Function.update_eq_self]
      exact h.rows i

/-- **`erase`** of a key that is there, in the middle of its bucket: no cell after it is written.
-/
theorem erase_of_mem {pre post : List (ℕ × K × V)} {x : ℕ × K × V}
    (hcells : cells (ht.idx k) = pre ++ x :: post) (hx : x.2.1 = k) :
    ∃ c', c.erase key = .ok (c', true) ∧
      c'.Laid (Function.update cells (ht.idx k) (pre ++ post)) (ht.erase k) ∧
      ∀ p ∉ addresses (pre ++ [x]), c'.memory p = c.memory p := by
  subst hx
  have hchain := h.chained (ht.idx x.2.1)
  have hnodup := h.nodup (ht.idx x.2.1)
  have hkeys := h.nodup_keys (ht.idx x.2.1)
  have hlen := h.length_lt (ht.idx x.2.1)
  have hrows := h.rows (ht.idx x.2.1)
  rw [hcells] at hchain hnodup hkeys hlen hrows
  have hothers : ∀ y ∈ pre ++ post, y.2.1 ≠ x.2.1 := by
    rw [List.map_append, List.map_cons, List.nodup_middle, List.nodup_cons, ← List.map_append]
      at hkeys
    intro y hy heq
    exact hkeys.1 (heq ▸ List.mem_map_of_mem hy)
  have hfilter : (ht.t (ht.idx x.2.1)).filter (fun e => e.1 ≠ x.2.1) =
      (pre ++ post).map Prod.snd := by
    rw [← hrows, List.map_append, List.map_cons, List.filter_append,
      List.filter_cons_of_neg (by simp), ← List.filter_append, ← List.map_append]
    exact filter_of_absent hothers
  obtain ⟨m', b', hrun, hchain', hframe⟩ := hchain.unlink_eq
    (fun y hy => (hasKey_eq hkey y.2).trans
      (congrArg Except.ok (decide_eq_false (hothers y (List.mem_append_left _ hy)))))
    ((hasKey_eq hkey x.2).trans (congrArg Except.ok (decide_eq_true rfl))) hnodup hlen
  refine ⟨{ c with
    memory := m'
    t := Function.update c.t (ht.idx x.2.1) b'
    s := c.s - 1 }, ?_, ⟨h.bc, ?_, fun i => ?_, fun i p hp => ?_, fun i => ?_⟩, hframe⟩
  · rw [HashChains.erase, hkey]
    show (unlink c.memory _ (c.t (c.idx _)) c.steps none (c.t (c.idx _)) >>= _) = _
    rw [h.idx, hrun]
    rfl
  · show c.s - 1 = ht.s + (List.filter _ _).length - _
    have htotal : (ht.t (ht.idx x.2.1)).length = (pre ++ post).length + 1 := by
      rw [← hrows, List.length_map, List.length_append, List.length_cons, List.length_append]
      omega
    rw [hfilter, htotal, List.length_map, h.s]
    omega
  · show Chained m' (Function.update c.t (ht.idx x.2.1) b' i) _
    by_cases hi : i = ht.idx x.2.1
    · rw [hi, Function.update_self, Function.update_self]
      exact hchain'
    · -- what was written is in the bucket of the key, and nowhere else
      rw [Function.update_of_ne hi, Function.update_of_ne hi]
      refine (h.chained i).congr fun p hp => hframe p fun hmem => hi ?_
      obtain ⟨y, hy, rfl⟩ := List.mem_map.mp hp
      obtain ⟨z, hz, heq⟩ := List.mem_map.mp hmem
      have hz' : z ∈ cells (ht.idx x.2.1) := by
        rw [hcells]
        rcases List.mem_append.mp hz with hz | hz
        · exact List.mem_append_left _ hz
        · exact List.mem_append_right _ (List.mem_singleton.mp hz ▸ List.mem_cons_self)
      exact (h.unique hy hz' heq.symm).2
  · by_cases hi : i = ht.idx x.2.1
    · rw [hi, Function.update_self] at hp
      refine h.below (ht.idx x.2.1) p ?_
      obtain ⟨y, hy, rfl⟩ := List.mem_map.mp hp
      rw [hcells]
      refine List.mem_map_of_mem ?_
      rcases List.mem_append.mp hy with hy | hy
      · exact List.mem_append_left _ hy
      · exact List.mem_append_right _ (List.mem_cons_of_mem _ hy)
    · rw [Function.update_of_ne hi] at hp
      exact h.below i p hp
  · show _ = Function.update ht.t (ht.idx x.2.1) _ i
    by_cases hi : i = ht.idx x.2.1
    · rw [hi, Function.update_self, Function.update_self, hfilter]
    · rw [Function.update_of_ne hi, Function.update_of_ne hi, h.rows]

end Laid

/-- **`erase`.** -/
theorem Models.erase (h : c.Models ht) {key : KeyRef K} {k : K} (hkey : c.readKey key = .ok k) :
    ∃ c', c.erase key = .ok (c', (ht.get k).isSome) ∧ c'.Models (ht.erase k) := by
  obtain ⟨cells, h⟩ := h
  rcases h.locate_cases k with ⟨-, hget⟩ | ⟨x, hx, hxk, -, hget⟩
  · obtain ⟨hrun, hl⟩ := h.erase_of_absent hkey hget
    exact ⟨c, by rw [hget]; exact hrun, _, hl⟩
  · obtain ⟨pre, post, hcells⟩ := List.append_of_mem hx
    obtain ⟨c', hrun, hl, -⟩ := h.erase_of_mem hkey hcells hxk
    exact ⟨c', by rw [hget]; exact hrun, _, hl⟩

/-! ### Listing -/

section Listing

variable (h : c.Models ht)
include h

omit [DecidableEq K] in
theorem Models.bucket_eq (i : ℕ) : c.bucket i = .ok (ht.t i) := by
  obtain ⟨cells, h⟩ := h
  rw [← h.rows i]
  exact (h.chained i).readAll_eq (h.length_lt i)

omit [DecidableEq K] in
/-- **The loops over all buckets** come to each entry once. -/
theorem Models.collect_eq {β : Type} (f : K × V → β) (l : List β) :
    c.collect f l = .ok (l ++ ht.entries.map f) := by
  have hrun : ∀ (is : List ℕ) (l : List β), (is.foldlM (fun l i => do
      let b ← c.bucket i
      pure (l ++ b.map f)) l : Except Fault (List β)) = .ok (l ++ (is.flatMap ht.t).map f) := by
    intro is
    induction is with
    | nil =>
        intro l
        rw [List.flatMap_nil, List.map_nil, List.append_nil]
        rfl
    | cons i is ih =>
        intro l
        rw [List.foldlM_cons, h.bucket_eq, List.flatMap_cons, List.map_append, ← List.append_assoc]
        exact ih _
  obtain ⟨cells, hl⟩ := h
  rw [collect, Hashtable.entries, ← hl.bc]
  by_cases hs : c.s = 0
  · have hnil : (List.range c.bc).flatMap ht.t = [] := by
      rw [List.flatMap_eq_nil_iff]
      intro i _
      rw [← hl.rows i, hl.cells_eq_nil hs]
      rfl
    rw [if_pos hs, hnil, List.map_nil, List.append_nil]
    rfl
  · rw [if_neg hs, hrun]

end Listing

/-! ### Assigning -/

/-- Setting the entries of a bucket, one after another. -/
theorem setAll_eq {m : Memory (K × V)} {b : Option ℕ} {l : List (ℕ × K × V)} (hl : Chained m b l)
    (room : ℕ → Bool) (h : c.Models ht) (hkeys : (l.map fun x => x.2.1).Nodup) {n : ℕ}
    (hn : l.length < n) :
    ∃ c' ht', setAll room m n c b = .ok c' ∧ c'.Models ht' ∧
      (∀ x ∈ l, ht'.get x.2.1 = some x.2.2) ∧
      ∀ k ∉ l.map fun x => x.2.1, ht'.get k = ht.get k := by
  -- on the chain of the other table, which is only read
  induction l generalizing c ht b n with
  | nil =>
      obtain ⟨n, rfl⟩ := Nat.exists_eq_succ_of_ne_zero (Nat.ne_of_gt hn)
      rw [show b = none from hl]
      exact ⟨c, ht, rfl, h, fun _ hx => absurd hx List.not_mem_nil, fun _ _ => rfl⟩
  | cons x l ih =>
      obtain ⟨n, rfl⟩ := Nat.exists_eq_succ_of_ne_zero (Nat.ne_of_gt (Nat.zero_lt_of_lt hn))
      obtain ⟨rfl, next, hx, hchain⟩ := hl
      rw [List.map_cons, List.nodup_cons] at hkeys
      obtain ⟨c₁, ht₁, hc₁, h₁, hget₁⟩ := h.set room x.2.1 x.2.2
      obtain ⟨c', ht', hc', h', hin, hout⟩ := ih hchain h₁ hkeys.2 (Nat.lt_of_succ_lt_succ hn)
      refine ⟨c', ht', ?_, h', fun y hy => ?_, fun k hk => ?_⟩
      · rw [setAll, Memory.read_eq hx]
        show (c.set room x.2.1 x.2.2 >>= _) = _
        rw [hc₁]
        exact hc'
      · rcases List.mem_cons.mp hy with rfl | hy
        · rw [hout _ hkeys.1, hget₁, if_pos rfl]
        · exact hin y hy
      · rw [List.map_cons, List.mem_cons, not_or] at hk
        rw [hout k hk.2, hget₁, if_neg hk.1]

/-- Setting the entries of some buckets. -/
theorem setAlls_eq {m : Memory (K × V)} {t : ℕ → Option ℕ} {cells : ℕ → List (ℕ × K × V)}
    {n : ℕ} (hcells : ∀ i, Chained m (t i) (cells i)) (hlen : ∀ i, (cells i).length < n)
    (room : ℕ → Bool) (h : c.Models ht) {is : List ℕ}
    (hkeys : ((is.flatMap cells).map fun x => x.2.1).Nodup) :
    ∃ c' ht', is.foldlM (fun c i => setAll room m n c (t i)) c = .ok c' ∧ c'.Models ht' ∧
      (∀ x ∈ is.flatMap cells, ht'.get x.2.1 = some x.2.2) ∧
      ∀ k ∉ (is.flatMap cells).map fun x => x.2.1, ht'.get k = ht.get k := by
  -- on the buckets of the other table
  induction is generalizing c ht with
  | nil => exact ⟨c, ht, rfl, h, fun _ hx => absurd hx List.not_mem_nil, fun _ _ => rfl⟩
  | cons i is ih =>
      rw [List.flatMap_cons, List.map_append, List.nodup_append'] at hkeys
      obtain ⟨hi, his, hsep⟩ := hkeys
      obtain ⟨c₁, ht₁, hc₁, h₁, hin₁, hout₁⟩ := setAll_eq (hcells i) room h hi (hlen i)
      obtain ⟨c', ht', hc', h', hin, hout⟩ := ih h₁ his
      refine ⟨c', ht', ?_, h', fun x hx => ?_, fun k hk => ?_⟩
      · rw [List.foldlM_cons, hc₁]
        exact hc'
      · rw [List.flatMap_cons] at hx
        rcases List.mem_append.mp hx with hx | hx
        · rw [hout _ fun hmem => hsep (List.mem_map_of_mem (f := fun x => x.2.1) hx) hmem]
          exact hin₁ x hx
        · exact hin x hx
      · rw [List.flatMap_cons, List.map_append, List.mem_append, not_or] at hk
        rw [hout k hk.2, hout₁ k hk.1]

/-- **`operator=`**, of another table. -/
theorem Models.assign (h : c.Models ht) (room : ℕ → Bool) {o : HashChains K V}
    {ho : Hashtable K V} (h' : o.Models ho) :
    ∃ c' ht', c.assign room (some o) = .ok c' ∧ c'.Models ht' ∧ ∀ k, ht'.get k = ho.get k := by
  obtain ⟨c₁, hc₁, h₁, -⟩ := h.clear
  obtain ⟨cells, hl⟩ := h'
  have hget : ∀ k v, ho.get k = some v ↔ ∃ x ∈ (List.range o.bc).flatMap cells, x.2 = (k, v) := by
    intro k v
    rw [← ho.mem_entries_iff, Hashtable.entries, ← hl.bc, ← List.mem_map, List.map_flatMap,
      List.flatMap_congr fun i _ => hl.rows i]
  have hkeys : (((List.range o.bc).flatMap cells).map fun x => x.2.1).Nodup := by
    have hn := ho.nodup_entries
    rw [Hashtable.entries, ← hl.bc, ← List.flatMap_congr fun i _ => hl.rows i, ← List.map_flatMap,
      List.map_map] at hn
    exact hn
  rw [HashChains.assign, hc₁]
  show ∃ c' ht', (if o.s = 0 then pure c₁ else _) = _ ∧ _
  by_cases hs : o.s = 0
  · refine ⟨c₁, _, if_pos hs, h₁, fun k => ?_⟩
    rw [hl.table_get_eq, hl.cells_eq_nil hs]
    rfl
  · obtain ⟨c', ht', hc', hm', hin, hout⟩ := setAlls_eq hl.chained hl.length_lt room h₁ hkeys
    refine ⟨c', ht', ?_, hm', fun k => ?_⟩
    · rw [if_neg hs]
      exact hc'
    · rcases hk : ho.get k with - | v
      · rw [hout k, Hashtable.get_empty]
        intro hmem
        obtain ⟨x, hx, rfl⟩ := List.mem_map.mp hmem
        rw [(hget x.2.1 x.2.2).mpr ⟨x, hx, rfl⟩] at hk
        cases hk
      · obtain ⟨x, hx, heq⟩ := (hget k v).mp hk
        have := hin x hx
        rwa [heq] at this

omit [DecidableEq K] in
/-- A table is cleared before its own entries are looked for. -/
theorem Models.assign_self [DecidableEq K] (h : c.Models ht) (room : ℕ → Bool) :
    ∃ c', c.assign room none = .ok c' ∧ c'.Models (Hashtable.empty ht.bc ht.pos) := by
  obtain ⟨c', hc', h', hs⟩ := h.clear
  refine ⟨c', ?_, h'⟩
  rw [HashChains.assign, hc']
  exact if_pos hs

end HashChains
