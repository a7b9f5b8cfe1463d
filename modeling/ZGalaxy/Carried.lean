/-
ZGalaxy/Carried.lean

A decision that a loop carries from one key to the next.

A loop over keyed values decides anew when the key changes.  What is known of a key overrules the
decision so far; of a key that nothing is known of, the decision of the key before stays.  Some keys
are allowed besides.  The values whose key the loop decides for are kept (`carried`).

Deciding for each value by itself (`alone`) keeps no more (`sublist_carried`), and the same
exactly when no key takes over the decision of the one before it (`carried_eq_kept_iff`).
-/
import Mathlib.Data.List.Chain

/-- What decides for a key: what is known of it, and what allows it besides. -/
structure Carried (K : Type*) where
  look : K → Option Bool
  other : K → Bool

namespace Carried

variable {K V : Type*} [DecidableEq K] (R : Carried K)

/-- The decision at a key, after `d` at the key `last`. -/
def next (last : K) (d : Bool) (k : K) : Bool :=
  if k ≠ last then (R.look k).getD d || R.other k else d

/-- The values that a loop keeps. -/
def carried (last : K) (d : Bool) : List (K × V) → List (K × V)
  | [] => []
  | x :: xs =>
      if R.next last d x.1 then x :: carried x.1 (R.next last d x.1) xs
      else carried x.1 (R.next last d x.1) xs

/-- The decision at the first key of a loop that starts with `k₀` and nothing allowed. -/
def alone (k₀ k : K) : Bool := R.next k₀ false k

/-- The values whose keys are decided for alone. -/
def kept (k₀ : K) (xs : List (K × V)) : List (K × V) := xs.filter fun x => R.alone k₀ x.1

/-- A key is allowed. -/
def Allowed (k : K) : Prop := R.look k = some true ∨ R.other k = true

/-- The decision at `n`, right after `m`, is the one at `n` alone. -/
def Separate (k₀ m n : K) : Prop :=
  m ≠ n →
    if n = k₀ then ¬R.Allowed n ∧ (R.look n ≠ none ∨ ¬R.Allowed m)
    else R.look n ≠ none ∨ R.Allowed n ∨ m = k₀ ∨ ¬R.Allowed m

variable {R} {k₀ last k m n : K} {d : Bool} {xs : List (K × V)}

/-! ### One key -/

theorem next_of_ne (h : k ≠ last) : R.next last d k = ((R.look k).getD d || R.other k) := if_pos h

theorem next_self (R : Carried K) (k : K) (d : Bool) : R.next k d k = d := if_neg (not_not.mpr rfl)

@[simp] theorem alone_self (R : Carried K) (k₀ : K) : R.alone k₀ k₀ = false := R.next_self k₀ false

omit [DecidableEq K] in
theorem getD_look_iff : (R.look k).getD d = true ↔
    R.look k = some true ∨ R.look k = none ∧ d = true := by
  rcases R.look k with - | b
  · exact ⟨fun h => Or.inr ⟨rfl, h⟩, fun h => (h.resolve_left nofun).2⟩
  · exact ⟨fun h => Or.inl (congrArg some h), fun h => Option.some.inj (h.resolve_right nofun)⟩

theorem alone_iff : R.alone k₀ k = true ↔ k ≠ k₀ ∧ R.Allowed k := by
  by_cases hk : k = k₀
  · rw [hk, alone_self]
    exact iff_of_false Bool.false_ne_true fun h => h.1 rfl
  · rw [alone, next_of_ne hk, Bool.or_eq_true, getD_look_iff, and_iff_right hk]
    refine or_congr_left (or_iff_left ?_)
    exact fun h => Bool.false_ne_true h.2

/-- The decision after a key that was allowed is no other one when nothing was allowed before. -/
theorem next_mono (h : R.alone k₀ last = true → d = true) (hk : R.alone k₀ k = true) :
    R.next last d k = true := by
  by_cases hlast : k = last
  · subst hlast
    rw [next_self]
    exact h hk
  · obtain ⟨-, hallowed⟩ := alone_iff.mp hk
    rw [next_of_ne hlast, Bool.or_eq_true]
    exact hallowed.imp_left fun hlook => by rw [hlook]; rfl

/-- **A separate key** is decided for as if it were alone. -/
theorem next_eq_alone_iff : R.next m (R.alone k₀ m) n = R.alone k₀ n ↔ R.Separate k₀ m n := by
  unfold Separate
  by_cases hmn : m = n
  · subst hmn
    rw [next_self]
    exact iff_of_true rfl fun hne => absurd rfl hne
  · rw [next_of_ne (Ne.symm hmn), imp_iff_right hmn]
    rw [Bool.eq_iff_iff, Bool.or_eq_true, getD_look_iff, alone_iff, alone_iff]
    have hknown : R.look n = some true → R.look n ≠ none :=
      fun h hnone => nomatch h.symm.trans hnone
    unfold Allowed at *
    split_ifs with hn
    · subst hn
      tauto
    · tauto

/-! ### A row of keys -/

theorem kept_cons_of_pos {x : K × V} (h : R.alone k₀ x.1 = true) :
    R.kept k₀ (x :: xs) = x :: R.kept k₀ xs :=
  List.filter_cons_of_pos (p := fun x : K × V => R.alone k₀ x.1) h

theorem kept_cons_of_neg {x : K × V} (h : ¬R.alone k₀ x.1 = true) :
    R.kept k₀ (x :: xs) = R.kept k₀ xs :=
  List.filter_cons_of_neg (p := fun x : K × V => R.alone k₀ x.1) h

theorem carried_cons (R : Carried K) (last : K) (d : Bool) (x : K × V) (xs : List (K × V)) :
    R.carried last d (x :: xs) =
      (if R.next last d x.1 then [x] else []) ++ R.carried x.1 (R.next last d x.1) xs := by
  rw [carried]
  split_ifs
  · rfl
  · rfl

/-- The values that are kept alone, one after another. -/
theorem kept_eq_flatMap : R.kept k₀ xs = xs.flatMap fun x => R.carried k₀ false [x] := by
  induction xs with
  | nil => rfl
  | cons x xs ih =>
      rw [List.flatMap_cons, ← ih, carried_cons, carried, List.append_nil]
      show R.kept k₀ (x :: xs) = (if R.alone k₀ x.1 = true then [x] else []) ++ R.kept k₀ xs
      split_ifs with hx
      · exact kept_cons_of_pos hx
      · exact kept_cons_of_neg hx

/-- The loop keeps what it keeps of each value alone. -/
theorem sublist_carried (h : R.alone k₀ last = true → d = true) :
    (R.kept k₀ xs).Sublist (R.carried last d xs) := by
  induction xs generalizing last d with
  | nil => exact List.Sublist.refl []
  | cons x xs ih =>
      have hnext : R.alone k₀ x.1 = true → R.next last d x.1 = true := next_mono h
      rw [carried]
      split_ifs with hd
      · by_cases hx : R.alone k₀ x.1 = true
        · rw [kept_cons_of_pos hx]
          exact (ih hnext).cons_cons x
        · rw [kept_cons_of_neg hx]
          exact (ih hnext).cons x
      · rw [kept_cons_of_neg fun hx => hd (hnext hx)]
        exact ih hnext

/-- After a key, the loop keeps nothing more exactly when each key is separate from the one
before. -/
theorem carried_eq_iff : R.carried last (R.alone k₀ last) xs = R.kept k₀ xs ↔
    (last :: xs.map Prod.fst).IsChain (R.Separate k₀) := by
  induction xs generalizing last with
  | nil => exact iff_of_true rfl (List.isChain_singleton last)
  | cons x xs ih =>
      rw [List.map_cons, List.isChain_cons_cons, ← next_eq_alone_iff, ← ih]
      rw [carried]
      by_cases hx : R.alone k₀ x.1 = true
      · -- the decision stands, whatever it was before
        have hd : R.next last (R.alone k₀ last) x.1 = true := next_mono id hx
        rw [if_pos hd, kept_cons_of_pos hx, hd, hx, List.cons_inj_right]
        exact (and_iff_right rfl).symm
      · rw [kept_cons_of_neg hx, Bool.eq_false_iff.mpr hx]
        by_cases hd : R.next last (R.alone k₀ last) x.1 = true
        · -- one value more is kept, so the lists differ in length
          rw [if_pos hd, hd]
          refine iff_of_false (fun heq => ?_) fun h => Bool.false_ne_true h.1.symm
          have hle : (R.kept k₀ xs).length ≤ (R.carried x.1 true xs).length :=
            (sublist_carried fun _ => rfl).length_le
          rw [← heq, List.length_cons] at hle
          exact Nat.not_succ_le_self _ hle
        · rw [if_neg hd, Bool.eq_false_iff.mpr hd]
          exact (and_iff_right rfl).symm

/-- **Nothing is carried** exactly when each key is separate from the one before. -/
theorem carried_eq_kept_iff : R.carried k₀ false xs = R.kept k₀ xs ↔
    (xs.map Prod.fst).IsChain (R.Separate k₀) := by
  have hfirst : ∀ y ∈ (xs.map Prod.fst).head?, R.Separate k₀ k₀ y := by
    intro y _
    rw [← next_eq_alone_iff, alone_self]
    rfl
  have hstart : R.carried k₀ (R.alone k₀ k₀) xs = R.kept k₀ xs ↔
      (k₀ :: xs.map Prod.fst).IsChain (R.Separate k₀) := carried_eq_iff
  rw [alone_self] at hstart
  rw [hstart, List.isChain_cons]
  exact and_iff_right hfirst

end Carried
