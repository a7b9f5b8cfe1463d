/-
ZGalaxy/Behaviours.lean

Endless behaviours of a system whose parts take turns.

A system is a partial function: what an action makes of a state, where the action can be taken.  A
behaviour is an endless sequence of states in which at each time one action is taken, or none, so
that a part may stay still for as long as it likes.  What must happen then rests on fairness, and
all of it goes through one rule (`eventually_of_fair`): a condition that lasts until something
happens, and that a fair part cannot leave alone, ends with that happening.
-/
import Mathlib.Data.List.Basic

/-- What is left of a state after an action, or after none. -/
def nextOf {σ α : Type} (step : σ → α → Option σ) (s : σ) : Option α → Option σ
  | none => some s
  | some a => step s a

/-- What is left of a state after some actions. -/
def execute {σ α : Type} (step : σ → α → Option σ) : σ → List α → Option σ
  | s, [] => some s
  | s, a :: as => (step s a).bind fun s' => execute step s' as

/-- What every step keeps holds after some. -/
theorem execute_invariant {σ α : Type} {step : σ → α → Option σ} {I : σ → Prop}
    (hstep : ∀ s a s', I s → step s a = some s' → I s') {s s' : σ} (h : I s) {as : List α}
    (hrun : execute step s as = some s') : I s' := by
  induction as generalizing s with
  | nil => exact Option.some.inj hrun ▸ h
  | cons a as ih =>
      obtain ⟨s₁, hs₁, hrun⟩ := Option.bind_eq_some_iff.mp hrun
      exact ih (hstep s a s₁ h hs₁) hrun

/-- An endless behaviour of a system. -/
structure Behaviour {σ α : Type} (step : σ → α → Option σ) where
  state : ℕ → σ
  action : ℕ → Option α
  follows : ∀ i, nextOf step (state i) (action i) = some (state (i + 1))

namespace Behaviour

variable {σ α : Type} {step : σ → α → Option σ}

/-! ### Behaviours that come to rest -/

theorem execute_append (s : σ) (as bs : List α) :
    execute step s (as ++ bs) = (execute step s as).bind fun s' => execute step s' bs := by
  induction as generalizing s with
  | nil => rfl
  | cons a as ih =>
      show (step s a).bind _ = ((step s a).bind _).bind _
      rw [Option.bind_assoc]
      congr 1
      funext s'
      exact ih s'

theorem execute_concat (s : σ) (as : List α) (a : α) :
    execute step s (as ++ [a]) = (execute step s as).bind fun s' => step s' a := by
  rw [execute_append]
  congr 1
  funext s'
  exact Option.bind_fun_some _

theorem isSome_execute_of_append {s : σ} {as : List α} (bs : List α)
    (h : (execute step s (as ++ bs)).isSome) : (execute step s as).isSome := by
  rw [execute_append] at h
  exact Option.isSome_of_isSome_bind h

/-- **A run that comes to rest** is a behaviour in which nothing happens any more. -/
def ofList (s : σ) (as : List α) (h : (execute step s as).isSome) : Behaviour step where
  state i := (execute step s (as.take i)).getD s
  action i := as[i]?
  follows i := by
    by_cases hi : i < as.length
    · have hsome : (execute step s (as.take i ++ [as[i]])).isSome := by
        refine isSome_execute_of_append (as.drop (i + 1)) ?_
        rwa [List.take_append_getElem, List.take_append_drop]
      rw [List.getElem?_eq_getElem hi, ← List.take_append_getElem hi]
      show step _ as[i] = _
      rw [execute_concat] at hsome ⊢
      obtain ⟨s', hs'⟩ := Option.isSome_iff_exists.mp (Option.isSome_of_isSome_bind hsome)
      rw [hs'] at hsome ⊢
      obtain ⟨s'', hs''⟩ := Option.isSome_iff_exists.mp hsome
      have hstep : step s' as[i] = some s'' := hs''
      show step s' as[i] = some ((step s' as[i]).getD s)
      rw [hstep]
      rfl
    · have hi : as.length ≤ i := Nat.le_of_not_lt hi
      rw [List.getElem?_eq_none hi, List.take_of_length_le hi,
        List.take_of_length_le (Nat.le_succ_of_le hi)]
      rfl

/-- The state in which it rests. -/
theorem ofList_rests {s s' : σ} {as : List α} (h : (execute step s as).isSome)
    (hs' : execute step s as = some s') {i : ℕ} (hi : as.length ≤ i) :
    (ofList s as h).state i = s' := by
  show (execute step s (as.take i)).getD s = s'
  rw [List.take_of_length_le hi, hs']
  rfl

/-! ### What always holds -/

/-- At each time nothing happens, or an action is taken. -/
theorem stays_or_steps (b : Behaviour step) (i : ℕ) :
    b.action i = none ∧ b.state (i + 1) = b.state i ∨
      ∃ a, b.action i = some a ∧ step (b.state i) a = some (b.state (i + 1)) := by
  have hfollows := b.follows i
  cases haction : b.action i with
  | none =>
      rw [haction] at hfollows
      exact Or.inl ⟨rfl, (Option.some.inj hfollows).symm⟩
  | some a =>
      rw [haction] at hfollows
      exact Or.inr ⟨a, rfl, hfollows⟩

theorem steps (b : Behaviour step) {i : ℕ} {a : α} (h : b.action i = some a) :
    step (b.state i) a = some (b.state (i + 1)) := by
  have hfollows := b.follows i
  rw [h] at hfollows
  exact hfollows

/-- **Invariants.** -/
theorem always {b : Behaviour step} {I : σ → Prop} (hstart : I (b.state 0))
    (hstep : ∀ s a s', I s → step s a = some s' → I s') (i : ℕ) : I (b.state i) := by
  induction i with
  | zero => exact hstart
  | succ i ih =>
      rcases b.stays_or_steps i with ⟨-, hstays⟩ | ⟨a, -, hstep'⟩
      · rw [hstays]
        exact ih
      · exact hstep _ a _ ih hstep'

/-! ### What happens in the end -/

/-- As long as `busy` holds, an action of the fair part comes. -/
def Fair (b : Behaviour step) (busy : σ → Prop) (part : α → Prop) : Prop :=
  ∀ i, (∀ j, i ≤ j → busy (b.state j)) → ∃ j, i ≤ j ∧ ∃ a, b.action j = some a ∧ part a

variable {b : Behaviour step} {busy : σ → Prop} {part : α → Prop}

/-- **The rule for what must happen.**  `P` lasts until `Q` happens, while it lasts the fair part is
busy, and whatever this part does is `Q`. -/
theorem eventually_of_fair (hfair : b.Fair busy part) {P Q : ℕ → Prop} {i : ℕ} (hP : P i)
    (hlasts : ∀ j, i ≤ j → P j → Q j ∨ P (j + 1)) (hbusy : ∀ j, P j → busy (b.state j))
    (hacts : ∀ j a, P j → b.action j = some a → part a → Q j) : ∃ j, i ≤ j ∧ Q j := by
  by_contra hnever
  have hnever : ∀ j, i ≤ j → ¬Q j := fun j hj hQ => hnever ⟨j, hj, hQ⟩
  have hP' : ∀ n, P (i + n) := by
    intro n
    induction n with
    | zero => exact hP
    | succ n ih =>
        exact (hlasts _ (Nat.le_add_right i n) ih).resolve_left (hnever _ (Nat.le_add_right i n))
  have hstays : ∀ j, i ≤ j → P j := by
    intro j hj
    obtain ⟨n, rfl⟩ := Nat.exists_eq_add_of_le hj
    exact hP' n
  obtain ⟨j, hj, a, haction, ha⟩ := hfair i fun j hj => hbusy j (hstays j hj)
  exact hnever j hj (hacts j a (hstays j hj) haction ha)

end Behaviour
