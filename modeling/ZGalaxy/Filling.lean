/-
ZGalaxy/Filling.lean

Loops that fill an array from bytes.

An array has room for so many entries, and the entries that a loop has written are the first of it.
Writing to a slot is a step of its own (`place`), which goes wrong where there is no such slot.
The loops differ in what they do when the array is full and when an entry cannot be read: one asks
for no room at all, one reads on without keeping anything, one stops.

A loop that asks for room before it writes stays within the array, whatever the bytes are
(`within_discarding`, `within_stopping`, `within_strides`).  One that does not ask writes behind it
exactly when there are more entries than slots (`caught_eq`).
-/
import ZGalaxy.Reader

open ByteList

namespace Reader

variable {ε α β : Type}

/-- A reader that does not go back. -/
def Forward (r : Reader ε α) : Prop := ∀ b p v q, r b p = .ok (v, q) → p ≤ q

theorem Local.forward {r : Reader ε α} (h : Local r) : Forward r :=
  fun b p v q hr => (h b p v q hr).1

theorem Forward.pure (v : α) : Forward (pure v : Reader ε α) := (Local.pure v).forward

theorem Forward.fail (e : ε) : Forward (Reader.fail e : Reader ε α) := (Local.fail e).forward

theorem Forward.bind {r : Reader ε α} {f : α → Reader ε β} (hr : Forward r)
    (hf : ∀ v, Forward (f v)) : Forward (r >>= f) := by
  intro b p w q h
  obtain ⟨v, m, hv, h⟩ := bind_ok.mp h
  exact (hr b p v m hv).trans (hf v b m w q h)

/-- A reader that goes on, if only by a byte. -/
def Advances (r : Reader ε α) : Prop := ∀ b p v q, r b p = .ok (v, q) → p < q

theorem Advances.bind {r : Reader ε α} {f : α → Reader ε β} (hr : Advances r)
    (hf : ∀ v, Forward (f v)) : Advances (r >>= f) := by
  intro b p w q h
  obtain ⟨v, m, hv, h⟩ := bind_ok.mp h
  exact (hr b p v m hv).trans_le (hf v b m w q h)

theorem Advances.forward {r : Reader ε α} (h : Advances r) : Forward r :=
  fun b p v q hr => (h b p v q hr).le

end Reader

/-- How a loop that fills an array ends: as it should, with an exception, with a write behind the
array, or not in so many turns. -/
inductive Filled (α : Type)
  | all (xs : List α)
  | thrown (xs : List α)
  | overrun
  | endless

namespace Filling

variable {ε α : Type}

/-- The slot behind the entries is written, if the array has one. -/
def place (max : ℕ) (xs : List α) (next : Filled α) : Filled α :=
  if xs.length < max then next else .overrun

section Loops

variable (max : ℕ) (read : Reader ε α) (blank : α) (b : Bytes)

/-- Entries are read and written until the bytes end or one cannot be read. -/
def caught : ℕ → ℕ → List α → Filled α
  | 0, _, _ => .endless
  | n + 1, p, xs =>
      if p < b.length then
        match read b p with
        | .error _ => .all xs
        | .ok r => place max xs (caught n r.2 (xs ++ [r.1]))
      else .all xs

/-- Entries are read until the bytes end, and written while there is room. -/
def discarding : ℕ → ℕ → List α → Filled α
  | 0, _, _ => .endless
  | n + 1, p, xs =>
      if p < b.length then
        if xs.length < max then
          place max xs
            (match read b p with
            | .error _ => .thrown (xs ++ [blank])
            | .ok r => discarding n r.2 (xs ++ [r.1]))
        else
          match read b p with
          | .error _ => .thrown xs
          | .ok r => discarding n r.2 xs
      else .all xs

/-- Entries are read and written while there are bytes and room.  One that cannot be read may be
counted already, or not. -/
def stopping (counted : Bool) : ℕ → ℕ → List α → Filled α
  | 0, _, _ => .endless
  | n + 1, p, xs =>
      if p < b.length ∧ xs.length < max then
        place max xs
          (match read b p with
          | .error _ => .thrown (if counted then xs ++ [blank] else xs)
          | .ok r => stopping counted n r.2 (xs ++ [r.1]))
      else .all xs

/-- Entries of `k` bytes are written while there are that many bytes and room. -/
def strides (k : ℕ) (value : Bytes → ℕ → α) : ℕ → ℕ → List α → Filled α
  | 0, _, _ => .endless
  | n + 1, p, xs =>
      if p + k ≤ b.length then
        if xs.length < max then place max xs (strides k value n (p + k) (xs ++ [value b p]))
        else strides k value n (p + k) xs
      else .all xs

/-- The entries that can be read one after another. -/
def entries : ℕ → ℕ → List α
  | 0, _ => []
  | n + 1, p =>
      if p < b.length then
        match read b p with
        | .error _ => []
        | .ok r => r.1 :: entries n r.2
      else []

end Loops

/-- The loop ends, and has written no more entries than there is room for. -/
def Within (max : ℕ) : Filled α → Prop
  | .all xs => xs.length ≤ max
  | .thrown xs => xs.length ≤ max
  | .overrun => False
  | .endless => False

/-! ### What a loop keeps -/

section Within

variable {max : ℕ} {read : Reader ε α} {blank : α} {b : Bytes}

theorem length_append_le {xs : List α} (h : xs.length < max) (x : α) :
    (xs ++ [x]).length ≤ max := by
  rw [List.length_append, List.length_singleton]
  exact h

/-- **A loop that asks for no room** writes the entries that can be read, or behind the array. -/
theorem caught_eq (hread : read.Advances) {n p : ℕ} (hn : b.length - p < n) {xs : List α}
    (hxs : xs.length ≤ max) :
    caught max read b n p xs =
      if xs.length + (entries read b n p).length ≤ max then .all (xs ++ entries read b n p)
      else .overrun := by
  have hdone : ∀ xs : List α, xs.length ≤ max →
      (Filled.all xs : Filled α) = if xs.length + ([] : List α).length ≤ max then .all (xs ++ [])
      else .overrun := by
    intro xs hxs
    rw [List.length_nil, Nat.add_zero, if_pos hxs, List.append_nil]
  -- on the turns: each entry takes up bytes, and one place of the list
  induction n generalizing p xs with
  | zero => exact absurd hn (Nat.not_lt_zero _)
  | succ n ih =>
      rw [caught, entries]
      by_cases hp : p < b.length
      · rw [if_pos hp, if_pos hp]
        rcases hr : read b p with e | ⟨x, q⟩
        · exact hdone xs hxs
        · have hq := hread b p x q hr
          show place max xs (caught max read b n q (xs ++ [x])) = _
          by_cases hroom : xs.length < max
          · have hlength : (xs ++ [x]).length + (entries read b n q).length =
                xs.length + (x :: entries read b n q).length := by
              rw [List.length_append, List.length_singleton, List.length_cons]
              omega
            rw [place, if_pos hroom, ih (by omega) (length_append_le hroom x), hlength,
              List.append_assoc, List.singleton_append]
          · rw [place, if_neg hroom, if_neg]
            show ¬xs.length + (entries read b n q).length.succ ≤ max
            omega
      · rw [if_neg hp, if_neg hp]
        exact hdone xs hxs

/-- **A loop that discards** what there is no room for stays within the array. -/
theorem within_discarding (hread : read.Advances) {n p : ℕ} (hn : b.length - p < n) {xs : List α}
    (hxs : xs.length ≤ max) : Within max (discarding max read blank b n p xs) := by
  -- on the turns, as where an entry too many is caught
  induction n generalizing p xs with
  | zero => exact absurd hn (Nat.not_lt_zero _)
  | succ n ih =>
      rw [discarding]
      by_cases hp : p < b.length
      · rw [if_pos hp]
        rcases hr : read b p with e | ⟨x, q⟩
        · by_cases hroom : xs.length < max
          · rw [if_pos hroom, place, if_pos hroom]
            exact length_append_le hroom blank
          · rw [if_neg hroom]
            exact hxs
        · have hq := hread b p x q hr
          by_cases hroom : xs.length < max
          · rw [if_pos hroom, place, if_pos hroom]
            exact ih (by omega) (length_append_le hroom x)
          · rw [if_neg hroom]
            exact ih (by omega) hxs
      · rw [if_neg hp]
        exact hxs

/-- **A loop that stops** when the array is full stays within it. -/
theorem within_stopping (hread : read.Advances) {counted : Bool} {n p : ℕ} (hn : b.length - p < n)
    {xs : List α} (hxs : xs.length ≤ max) :
    Within max (stopping max read blank b counted n p xs) := by
  induction n generalizing p xs with
  | zero => exact absurd hn (Nat.not_lt_zero _)
  | succ n ih =>
      rw [stopping]
      by_cases hp : p < b.length ∧ xs.length < max
      · rw [if_pos hp, place, if_pos hp.2]
        rcases hr : read b p with e | ⟨x, q⟩
        · cases counted with
          | false => exact hxs
          | true => exact length_append_le hp.2 blank
        · have hq := hread b p x q hr
          have hpos := hp.1
          exact ih (by omega) (length_append_le hp.2 x)
      · rw [if_neg hp]
        exact hxs

/-- **A loop in strides** stays within the array. -/
theorem within_strides {k : ℕ} (hk : 0 < k) {value : Bytes → ℕ → α} {n p : ℕ}
    (hn : b.length - p < n) {xs : List α} (hxs : xs.length ≤ max) :
    Within max (strides max b k value n p xs) := by
  induction n generalizing p xs with
  | zero => exact absurd hn (Nat.not_lt_zero _)
  | succ n ih =>
      rw [strides]
      by_cases hp : p + k ≤ b.length
      · rw [if_pos hp]
        by_cases hroom : xs.length < max
        · rw [if_pos hroom, place, if_pos hroom]
          exact ih (by omega) (length_append_le hroom _)
        · rw [if_neg hroom]
          exact ih (by omega) hxs
      · rw [if_neg hp]
        exact hxs

end Within

/-- **Entries that were written** one after another are those that can be read. -/
theorem entries_readsBack {read : Reader ε α} {enc : α → Bytes} {vs : List α}
    (h : ∀ v ∈ vs, read.ReadsBack v (enc v) ∧ enc v ≠ []) (a : Bytes) {n : ℕ}
    (hn : (vs.flatMap enc).length < n) :
    entries read (a ++ vs.flatMap enc) n a.length = vs := by
  induction vs generalizing a n with
  | nil =>
      obtain ⟨n, rfl⟩ := Nat.exists_eq_succ_of_ne_zero (Nat.ne_zero_of_lt hn)
      rw [entries, List.flatMap_nil, List.append_nil, if_neg (lt_irrefl _)]
  | cons v vs ih =>
      obtain ⟨n, rfl⟩ := Nat.exists_eq_succ_of_ne_zero (Nat.ne_zero_of_lt hn)
      obtain ⟨hread, hne⟩ := h v List.mem_cons_self
      have hpos := List.length_pos_of_ne_nil hne
      rw [List.flatMap_cons, List.length_append] at hn
      have hmore : a.length < (a ++ (enc v ++ vs.flatMap enc)).length := by
        rw [List.length_append, List.length_append]
        omega
      have hrest := ih (fun w hw => h w (List.mem_cons_of_mem v hw)) (a ++ enc v)
        (show (vs.flatMap enc).length < n by omega)
      rw [List.append_assoc, List.length_append] at hrest
      rw [entries, List.flatMap_cons, if_pos hmore, hread]
      exact congrArg (v :: ·) hrest

end Filling
