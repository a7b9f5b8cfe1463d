/-
ZGalaxy/MapIndex.lean

Indexes kept beside a map.

A map `f` gives some keys a value.  Two kinds of index are kept of it: the keys whose value has a
flag (`Flagged`), and everything that any of the values contributes (`Contributed`).  When the
value of a key is replaced, the flag of the old one is taken out and that of the new one put in
(`reflag`), and so are its contributions (`recontribute`).  For flags this is always right
(`Flagged.reflag`), since a key has one value.  Two values may contribute the same, and then taking
out is right just when the new value contributes it again (`contributed_recontribute_iff`).
-/
import Mathlib.Data.Finset.Basic
import Mathlib.Logic.Function.Basic

namespace MapIndex

variable {K V X : Type*} [DecidableEq K] [DecidableEq X]

/-- The keys whose value has the flag. -/
def Flagged (p : V → Bool) (f : K → Option V) (s : Finset K) : Prop :=
  ∀ k, k ∈ s ↔ (f k).any p = true

/-- Everything that a value contributes. -/
def Contributed (g : V → Finset X) (f : K → Option V) (t : Finset X) : Prop :=
  ∀ x, x ∈ t ↔ ∃ k v, f k = some v ∧ x ∈ g v

/-- What a value contributes, if there is one. -/
def contribution (g : V → Finset X) (v : Option V) : Finset X := v.elim ∅ g

/-- The index of a flag when the value of a key is replaced. -/
def reflag (p : V → Bool) (k : K) (old new : Option V) (s : Finset K) : Finset K :=
  let s := if old.any p then s.erase k else s
  if new.any p then insert k s else s

/-- The contributions when a value is replaced. -/
def recontribute (g : V → Finset X) (old new : Option V) (t : Finset X) : Finset X :=
  (t \ contribution g old) ∪ contribution g new

variable {p : V → Bool} {g : V → Finset X} {f : K → Option V} {s : Finset K} {t : Finset X}

omit [DecidableEq K] [DecidableEq X] in
theorem flagged_empty : Flagged p (fun _ : K => none) ∅ := by
  intro k
  rw [Option.any_none]
  exact iff_of_false (Finset.notMem_empty k) Bool.false_ne_true

omit [DecidableEq K] [DecidableEq X] in
theorem contributed_empty : Contributed g (fun _ : K => none) ∅ := by
  intro x
  refine iff_of_false (Finset.notMem_empty x) ?_
  rintro ⟨k, v, hv, -⟩
  cases hv

theorem mem_reflag {k k' : K} {old new : Option V} :
    k' ∈ reflag p k old new s ↔
      k' = k ∧ new.any p = true ∨ k' ∈ s ∧ ¬ (k' = k ∧ old.any p = true) := by
  unfold reflag
  cases hold : old.any p <;> cases hnew : new.any p <;> simp <;> tauto

/-- **Replacing keeps the index of a flag.** -/
theorem Flagged.reflag (h : Flagged p f s) (k : K) (new : Option V) :
    Flagged p (Function.update f k new) (reflag p k (f k) new s) := by
  intro k'
  rw [mem_reflag]
  by_cases hk : k' = k
  · subst hk
    rw [Function.update_self, h k']
    tauto
  · rw [Function.update_of_ne hk, h k']
    tauto

omit [DecidableEq K] [DecidableEq X] in
theorem mem_contribution {x : X} {v : Option V} :
    x ∈ contribution g v ↔ ∃ w, v = some w ∧ x ∈ g w := by
  cases v with
  | none =>
      refine iff_of_false (Finset.notMem_empty x) ?_
      rintro ⟨w, hw, -⟩
      cases hw
  | some v =>
      constructor
      · intro hx
        exact ⟨v, rfl, hx⟩
      · rintro ⟨w, hw, hx⟩
        cases hw
        exact hx

omit [DecidableEq K] in
theorem mem_recontribute {x : X} {old new : Option V} :
    x ∈ recontribute g old new t ↔ x ∈ contribution g new ∨ x ∈ t ∧ x ∉ contribution g old := by
  unfold recontribute
  rw [Finset.mem_union, Finset.mem_sdiff, or_comm]

/-- Another key contributes it as well. -/
def SharedBy (g : V → Finset X) (f : K → Option V) (k : K) (x : X) : Prop :=
  ∃ k', k' ≠ k ∧ x ∈ contribution g (f k')

omit [DecidableEq X] in
/-- What the values contribute after one is replaced. -/
theorem contribution_update {k : K} {new : Option V} {x : X} :
    (∃ k' v, Function.update f k new k' = some v ∧ x ∈ g v) ↔
      x ∈ contribution g new ∨ SharedBy g f k x := by
  constructor
  · rintro ⟨k', v, hv, hx⟩
    by_cases hk : k' = k
    · rw [hk, Function.update_self] at hv
      exact .inl (mem_contribution.mpr ⟨v, hv, hx⟩)
    · rw [Function.update_of_ne hk] at hv
      exact .inr ⟨k', hk, mem_contribution.mpr ⟨v, hv, hx⟩⟩
  · rintro (hx | ⟨k', hk, hx⟩)
    · obtain ⟨v, hv, hx⟩ := mem_contribution.mp hx
      exact ⟨k, v, by rw [Function.update_self, hv], hx⟩
    · obtain ⟨v, hv, hx⟩ := mem_contribution.mp hx
      exact ⟨k', v, by rw [Function.update_of_ne hk, hv], hx⟩

/-- **Replacing keeps the index of what is contributed** just when the new value contributes again
what the old one had in common with another. -/
theorem contributed_recontribute_iff (h : Contributed g f t) (k : K) (new : Option V) :
    Contributed g (Function.update f k new) (recontribute g (f k) new t) ↔
      ∀ x ∈ contribution g (f k), SharedBy g f k x → x ∈ contribution g new := by
  constructor
  · intro hexact x hx hshared
    rcases mem_recontribute.mp ((hexact x).mpr (contribution_update.mpr (.inr hshared)))
      with hnew | ⟨-, hold⟩
    · exact hnew
    · exact absurd hx hold
  · intro hkept x
    rw [mem_recontribute, contribution_update, h x]
    constructor
    · rintro (hnew | ⟨⟨k', v, hv, hx⟩, hold⟩)
      · exact .inl hnew
      · by_cases hk : k' = k
        · subst hk
          exact absurd (mem_contribution.mpr ⟨v, hv, hx⟩) hold
        · exact .inr ⟨k', hk, mem_contribution.mpr ⟨v, hv, hx⟩⟩
    · rintro (hnew | hshared)
      · exact .inl hnew
      · by_cases hold : x ∈ contribution g (f k)
        · exact .inl (hkept x hold hshared)
        · obtain ⟨k', -, hx⟩ := hshared
          obtain ⟨v, hv, hx⟩ := mem_contribution.mp hx
          exact .inr ⟨⟨k', v, hv, hx⟩, hold⟩

end MapIndex
