/-
ZGalaxy/BoundedWrites.lean

Programs that write to arrays of fixed sizes.

A program is a computation that ends early when it would write outside an array, or when it throws
(`Fault`).  Writing is the one operation with a bound (`write`); pushing an element behind others
and filling an array from a list are made of it (`push`, `fill`).

`Inside P` says of a program that it never writes outside, and that what it returns has the
property `P`.  It follows the text of the program: one rule for a sequence (`Inside.bind`), one for
a loop (`inside_foldlM`), one for each operation.
-/
import Mathlib.Data.List.Basic

namespace BoundedWrites

variable {A E α β σ : Type}

/-- Why a program ends early: it would write outside an array, or it throws. -/
inductive Fault (A E : Type)
  | outside (array : A)
  | thrown (e : E)
deriving DecidableEq

/-! ### Operations -/

section Operations

variable (size : A → ℕ) (array : A)

/-- So many elements are written, from one on. -/
def write (first count : ℕ) : Except (Fault A E) Unit :=
  if first + count ≤ size array then .ok () else .error (.outside array)

/-- An element is written behind the others. -/
def push (xs : List α) (x : α) : Except (Fault A E) (List α) := do
  write size array xs.length 1
  pure (xs ++ [x])

/-- Each element of a list is read into the slot behind the others, until the array is full.  One
that comes to nothing leaves its slot to the next. -/
def fill (read : β → Except E (Option α)) : List β → List α → Except (Fault A E) (List α)
  | [], xs => pure xs
  | b :: bs, xs =>
      if size array ≤ xs.length then pure xs
      else do
        write size array xs.length 1
        match read b with
        | .error e => .error (.thrown e)
        | .ok none => fill read bs xs
        | .ok (some x) => fill read bs (xs ++ [x])

end Operations

/-! ### Staying inside -/

/-- Nothing is written outside, and what is returned has a property. -/
def Inside (P : α → Prop) : Except (Fault A E) α → Prop
  | .ok v => P v
  | .error (.outside _) => False
  | .error (.thrown _) => True

section Rules

variable {P : α → Prop} {Q : β → Prop} {x : Except (Fault A E) α} {f : α → Except (Fault A E) β}

theorem Inside.of_ok (h : Inside P x) {v : α} (hx : x = .ok v) : P v := by
  rw [hx] at h
  exact h

theorem inside_pure {v : α} (h : P v) : Inside P (pure v : Except (Fault A E) α) := h

theorem inside_thrown (e : E) : Inside P (.error (.thrown e) : Except (Fault A E) α) := trivial

theorem Inside.mono {P' : α → Prop} (h : Inside P x) (hP : ∀ v, P v → P' v) : Inside P' x := by
  rcases x with (a | e) | v
  · exact h
  · trivial
  · exact hP v h

theorem Inside.bind (hx : Inside P x) (hf : ∀ v, P v → Inside Q (f v)) : Inside Q (x >>= f) := by
  rcases x with (a | e) | v
  · exact hx
  · trivial
  · exact hf v hx

/-- The first part of a sequence stays inside if the sequence does. -/
theorem Inside.of_bind (h : Inside Q (x >>= f)) : Inside (fun _ => True) x := by
  rcases x with (a | e) | v
  · exact h
  · trivial
  · trivial

/-- What a sequence returns. -/
theorem bind_ok {w : β} : x >>= f = .ok w ↔ ∃ v, x = .ok v ∧ f v = .ok w := by
  rcases x with e | v
  · constructor
    · intro h
      cases h
    · rintro ⟨v, hv, _⟩
      cases hv
  · constructor
    · intro h
      exact ⟨v, rfl, h⟩
    · rintro ⟨v', hv', h⟩
      cases hv'
      exact h

/-- **A loop stays inside** if a turn of it does and keeps the property. -/
theorem inside_foldlM {P : σ → Prop} {f : σ → β → Except (Fault A E) σ}
    (hf : ∀ s b, P s → Inside P (f s b)) {s : σ} (hs : P s) (bs : List β) :
    Inside P (bs.foldlM f s) := by
  induction bs generalizing s with
  | nil => exact hs
  | cons b bs ih =>
      rw [List.foldlM_cons]
      exact (hf s b hs).bind fun _ ht => ih ht

end Rules

section Writes

variable {size : A → ℕ} {array : A}

theorem inside_write_iff {first count : ℕ} :
    Inside (fun _ => True) (write size array first count : Except (Fault A E) Unit) ↔
      first + count ≤ size array := by
  unfold write
  by_cases h : first + count ≤ size array
  · rw [if_pos h]
    exact iff_of_true trivial h
  · rw [if_neg h]
    exact iff_of_false id h

theorem write_ok {first count : ℕ} (h : first + count ≤ size array) :
    (write size array first count : Except (Fault A E) Unit) = .ok () := if_pos h

theorem push_ok {xs : List α} (h : xs.length < size array) (x : α) :
    (push size array xs x : Except (Fault A E) (List α)) = .ok (xs ++ [x]) := by
  unfold push
  rw [write_ok h]
  rfl

/-- Pushing where there is room. -/
theorem inside_push {xs : List α} (h : xs.length < size array) (x : α) :
    Inside (fun ys => ys.length ≤ size array)
      (push size array xs x : Except (Fault A E) (List α)) := by
  rw [push_ok h]
  show (xs ++ [x]).length ≤ _
  rw [List.length_append, List.length_singleton]
  exact h

/-- **Filling an array** stays inside it. -/
theorem inside_fill {read : β → Except E (Option α)} (bs : List β) {xs : List α}
    (h : xs.length ≤ size array) :
    Inside (fun ys => ys.length ≤ size array) (fill size array read bs xs) := by
  induction bs generalizing xs with
  | nil => exact h
  | cons b bs ih =>
      unfold fill
      by_cases hfull : size array ≤ xs.length
      · rw [if_pos hfull]
        exact h
      · rw [if_neg hfull]
        have hroom : xs.length + 1 ≤ size array := Nat.lt_of_not_le hfull
        refine (inside_write_iff.mpr hroom).bind fun _ _ => ?_
        rcases read b with e | _ | x
        · exact inside_thrown e
        · exact ih h
        · refine ih ?_
          rw [List.length_append, List.length_singleton]
          exact hroom

end Writes

end BoundedWrites
