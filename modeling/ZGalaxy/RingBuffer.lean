/-
ZGalaxy/RingBuffer.lean

A ring of slots written one behind the other by a counter that runs freely and wraps.

`push` writes to the slot the counter points at and moves the counter on, `w` bits of it.  When the
number of slots divides `2 ^ w` the wrap of the counter is not seen: after any writes the slots hold
the last of them, and where fewer were made than there are slots, what they were filled with at the
start (`mem_slots_pushes`).  The proof reads the initial content as a history before the first
write, so that slot `k % n` always holds entry `k` of one list (`Holds`).
-/
import Mathlib.Data.List.Induction
import Mathlib.Data.Nat.ModEq

namespace RingBuffer

variable {α : Type} {n w : ℕ}

/-- The slots, and the counter of the writes. -/
structure Ring (α : Type) (n w : ℕ) where
  slots : Vector α n
  ptr : BitVec w

/-- A ring with nothing written to it. -/
def new (n w : ℕ) (d : α) : Ring α n w := ⟨Vector.replicate n d, 0⟩

/-- The slot that is written next gets `x`. -/
def push [NeZero n] (r : Ring α n w) (x : α) : Ring α n w where
  slots := r.slots.set (r.ptr.toNat % n) x (Nat.mod_lt _ (Nat.pos_of_neZero n))
  ptr := r.ptr + 1

/-- A ring after writes. -/
def pushes [NeZero n] (r : Ring α n w) (xs : List α) : Ring α n w := xs.foldl push r

/-- What was written last, as many as there are slots. -/
def recent (n : ℕ) (xs : List α) : List α := xs.drop (xs.length - n)

@[simp] theorem slots_new (d : α) : (new n w d).slots = Vector.replicate n d := rfl

section Writes

variable [NeZero n] {r : Ring α n w} {d x : α} {xs : List α}

theorem pushes_concat : pushes r (xs ++ [x]) = push (pushes r xs) x := by
  unfold pushes
  rw [List.foldl_append, List.foldl_cons, List.foldl_nil]

@[simp] theorem pushes_nil : pushes r [] = r := rfl

/-- The counter counts the writes, up to its wrap. -/
theorem ptr_pushes_new : (pushes (new n w d) xs).ptr = BitVec.ofNat w xs.length := by
  induction xs using List.reverseRecOn with
  | nil => rfl
  | append_singleton xs x ih =>
      rw [pushes_concat, List.length_append, List.length_singleton]
      show (pushes (new n w d) xs).ptr + 1 = _
      rw [ih, BitVec.ofNat_add]
      rfl

/-- Where the number of slots divides the period of the counter, the slot written next is the one
the number of writes says. -/
theorem next_pushes_new (hn : n ∣ 2 ^ w) :
    (pushes (new n w d) xs).ptr.toNat % n = xs.length % n := by
  rw [ptr_pushes_new, BitVec.toNat_ofNat, Nat.mod_mod_of_dvd _ hn]

/-- Slot `k % n` holds entry `k` of the history, the initial content first. -/
def Holds (d : α) (xs : List α) (slots : Vector α n) : Prop :=
  ∀ k, xs.length ≤ k → k < xs.length + n →
    slots.toList[k % n]? = (List.replicate n d ++ xs)[k]?

omit [NeZero n] in
theorem holds_nil : Holds d [] (Vector.replicate n d) := by
  intro k _ hk
  rw [List.length_nil, Nat.zero_add] at hk
  rw [Nat.mod_eq_of_lt hk, List.append_nil, Vector.toList_replicate]

omit [NeZero n] in
/-- A write at the slot whose turn it is overwrites the oldest entry of the history. -/
theorem Holds.set {slots : Vector α n} (h : Holds d xs slots) {i : ℕ} (hi : i < n)
    (hix : i = xs.length % n) (x : α) : Holds d (xs ++ [x]) (slots.set i x hi) := by
  intro k hk hkn
  rw [List.length_append, List.length_singleton] at hk hkn
  rw [← List.append_assoc, Vector.toList_set]
  have hlen : (List.replicate n d ++ xs).length = n + xs.length := by
    rw [List.length_append, List.length_replicate]
  by_cases hlast : k = n + xs.length
  · -- the newest entry, at the slot just written
    rw [hlast, Nat.add_mod_left, ← hix, List.getElem?_set_self (by simpa using hi), ← hlen,
      List.getElem?_concat_length]
  · have hne : i ≠ k % n := by
      intro heq
      have hmod : Nat.ModEq n xs.length k := hix.symm.trans heq
      obtain ⟨c, hc⟩ := (Nat.modEq_iff_dvd' (by omega)).mp hmod
      -- a multiple of `n` between `0` and `n`
      rcases c with _ | c
      · omega
      · have : n ≤ k - xs.length := hc ▸ Nat.le_mul_of_pos_right n (Nat.succ_pos c)
        omega
    rw [List.getElem?_set_ne hne, List.getElem?_append_left (by omega)]
    exact h k (by omega) (by omega)

/-- **What the slots hold after any writes.** -/
theorem holds_pushes_new (hn : n ∣ 2 ^ w) (d : α) (xs : List α) :
    Holds d xs (pushes (new n w d) xs).slots := by
  induction xs using List.reverseRecOn with
  | nil => exact holds_nil
  | append_singleton xs x ih =>
      rw [pushes_concat]
      exact ih.set (Nat.mod_lt _ (Nat.pos_of_neZero n)) (next_pushes_new hn) x

omit [NeZero n] in
/-- Among `n` turns in a row each slot has one. -/
theorem exists_turn {i : ℕ} (m : ℕ) (hi : i < n) : ∃ j < n, (m + j) % n = i := by
  have hm := Nat.mod_lt m (Nat.zero_lt_of_lt hi)
  refine ⟨(i + (n - m % n)) % n, Nat.mod_lt _ (Nat.zero_lt_of_lt hi), ?_⟩
  obtain ⟨c, hc⟩ : n ∣ m + (n - m % n) := by
    refine ⟨m / n + 1, ?_⟩
    have := Nat.div_add_mod m n
    rw [Nat.mul_add, Nat.mul_one]
    omega
  calc (m + (i + (n - m % n)) % n) % n
      = (i + (m + (n - m % n))) % n := by rw [Nat.add_mod_mod, Nat.add_left_comm]
    _ = (i + n * c) % n := by rw [hc]
    _ = i := by rw [Nat.add_mul_mod_self_left, Nat.mod_eq_of_lt hi]

omit [NeZero n] in
/-- What is in the slots is what the history ends with. -/
theorem Holds.mem_iff {slots : Vector α n} (h : Holds d xs slots) {x : α} :
    x ∈ slots.toList ↔ x ∈ (List.replicate n d ++ xs).drop xs.length := by
  rw [List.mem_iff_getElem?, List.mem_iff_getElem?]
  constructor
  · rintro ⟨i, hi⟩
    have hin : i < n := by
      have := (List.getElem?_eq_some_iff.mp hi).1
      rwa [Vector.length_toList] at this
    -- the entry of the history that slot `i` holds
    obtain ⟨j, hjn, hslot⟩ := exists_turn xs.length hin
    refine ⟨j, ?_⟩
    rw [List.getElem?_drop, ← h _ (by omega) (by omega), hslot]
    exact hi
  · rintro ⟨j, hj⟩
    rw [List.getElem?_drop] at hj
    have hjn : j < n := by
      have := (List.getElem?_eq_some_iff.mp hj).1
      rw [List.length_append, List.length_replicate] at this
      omega
    refine ⟨(xs.length + j) % n, ?_⟩
    rw [h _ (by omega) (by omega)]
    exact hj

omit [NeZero n] in
/-- The end of the history: the last writes, with the initial content where they are too few. -/
theorem mem_drop_history {x : α} :
    x ∈ (List.replicate n d ++ xs).drop xs.length ↔
      x ∈ recent n xs ∨ (x = d ∧ xs.length < n) := by
  rw [List.drop_append, List.length_replicate, List.drop_replicate, List.mem_append,
    List.mem_replicate]
  constructor
  · rintro (⟨hne, hx⟩ | hx)
    · exact .inr ⟨hx, by omega⟩
    · exact .inl hx
  · rintro (hx | ⟨hx, hlt⟩)
    · exact .inr hx
    · exact .inl ⟨by omega, hx⟩

/-- **What a ring holds**: the last writes, as many as there are slots, and its initial content
while there were fewer. -/
theorem mem_slots_pushes (hn : n ∣ 2 ^ w) {x : α} :
    x ∈ (pushes (new n w d) xs).slots.toList ↔ x ∈ recent n xs ∨ (x = d ∧ xs.length < n) :=
  (holds_pushes_new hn d xs).mem_iff.trans mem_drop_history

end Writes

theorem recent_subset : recent n xs ⊆ (xs : List α) := List.drop_subset _ _

end RingBuffer
