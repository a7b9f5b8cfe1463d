/-
ZGalaxy/Machine.lean

State machines that emit outputs, and the two induction rules every run in this
development is proved by.

`Machine.step` takes a state and an event to the next state and the list of
outputs of that one step.  A run folds it over a list of events (`runState`,
`runOutputs`).  Properties of runs come in two kinds: an invariant of the states
reached, which may speak about the events so far, and a fact about every output
emitted.  Both reduce to one step (`invariant_run`, `outputs_run`), under a guard
on the steps of the run (`Guarded`) where a property only holds while some
condition does; a run without a guard is the case `fun _ _ => True`.
-/
import Mathlib.Data.List.Basic

/-- A state machine: each event moves the state and emits outputs. -/
structure Machine (σ ε ο : Type*) where
  step : σ → ε → σ × List ο

namespace Machine

variable {σ ε ο : Type*} (M : Machine σ ε ο)

/-- The state after a list of events. -/
def runState (s : σ) : List ε → σ
  | [] => s
  | e :: es => runState (M.step s e).1 es

/-- The outputs of a list of events, in order. -/
def runOutputs (s : σ) : List ε → List ο
  | [] => []
  | e :: es => (M.step s e).2 ++ runOutputs (M.step s e).1 es

/-- Every step of the run from `s` meets the condition `C`. -/
def Guarded (C : σ → ε → Prop) (s : σ) : List ε → Prop
  | [] => True
  | e :: es => C s e ∧ Guarded C (M.step s e).1 es

@[simp] theorem runState_nil (s : σ) : M.runState s [] = s := rfl

@[simp] theorem runOutputs_nil (s : σ) : M.runOutputs s [] = [] := rfl

@[simp] theorem runState_cons (s : σ) (e : ε) (es : List ε) :
    M.runState s (e :: es) = M.runState (M.step s e).1 es := rfl

@[simp] theorem runOutputs_cons (s : σ) (e : ε) (es : List ε) :
    M.runOutputs s (e :: es) = (M.step s e).2 ++ M.runOutputs (M.step s e).1 es := rfl

theorem runState_append (s : σ) (es fs : List ε) :
    M.runState s (es ++ fs) = M.runState (M.runState s es) fs := by
  induction es generalizing s with
  | nil => rfl
  | cons e es ih => exact ih (M.step s e).1

/-- A run under the trivial guard is any run. -/
theorem guarded_true (s : σ) (es : List ε) : M.Guarded (fun _ _ => True) s es := by
  induction es generalizing s with
  | nil => trivial
  | cons e es ih => exact ⟨trivial, ih _⟩

@[simp] theorem runState_concat (s : σ) (es : List ε) (e : ε) :
    M.runState s (es ++ [e]) = (M.step (M.runState s es) e).1 := by
  rw [runState_append]
  rfl

variable {M}

/-- A guard that the events meet in every state. -/
theorem guarded_of_forall {C : σ → ε → Prop} {es : List ε} (h : ∀ e ∈ es, ∀ s, C s e) (s : σ) :
    M.Guarded C s es := by
  induction es generalizing s with
  | nil => trivial
  | cons e es ih =>
      exact ⟨h e List.mem_cons_self s, ih (fun e' he => h e' (List.mem_cons_of_mem _ he)) _⟩

/-- A step inside a guarded run meets the guard, and so do the steps before it. -/
theorem guarded_append_cons {C : σ → ε → Prop} {s : σ} {es fs : List ε} {e : ε} :
    M.Guarded C s (es ++ e :: fs) ↔
      M.Guarded C s es ∧ C (M.runState s es) e ∧ M.Guarded C (M.runState s (es ++ [e])) fs := by
  induction es generalizing s with
  | nil => exact (true_and _).symm.to_iff
  | cons e' es ih => exact (and_congr_right fun _ => ih).trans and_assoc.symm

/-- **The invariant rule**: what holds at the start and is kept by every step that
meets the guard holds after every guarded run.  The invariant sees the events
so far, `h`. -/
theorem invariant_run {C : σ → ε → Prop} {I : List ε → σ → Prop}
    (hstep : ∀ h s e, I h s → C s e → I (h ++ [e]) (M.step s e).1)
    {h : List ε} {s : σ} (hI : I h s) {es : List ε} (hC : M.Guarded C s es) :
    I (h ++ es) (M.runState s es) := by
  induction es generalizing h s with
  | nil => rwa [List.append_nil]
  | cons e es ih =>
      have := ih (hstep h s e hI hC.1) hC.2
      rwa [List.append_assoc, List.singleton_append] at this

/-- **The output rule**: with an invariant kept by every guarded step, what every
guarded step from an invariant state guarantees of its outputs holds of all
outputs of a guarded run. -/
theorem outputs_run {C : σ → ε → Prop} {I : List ε → σ → Prop} {P : List ε → ο → Prop}
    (hstep : ∀ h s e, I h s → C s e → I (h ++ [e]) (M.step s e).1)
    (hout : ∀ h s e, I h s → C s e → ∀ o ∈ (M.step s e).2, P (h ++ [e]) o)
    {h : List ε} {s : σ} (hI : I h s) {es : List ε} (hC : M.Guarded C s es) :
    ∀ o ∈ M.runOutputs s es, ∃ es₁ es₂, es = es₁ ++ es₂ ∧ P (h ++ es₁) o := by
  induction es generalizing h s with
  | nil =>
      intro o ho
      cases ho
  | cons e es ih =>
      intro o ho
      rcases List.mem_append.mp ho with ho | ho
      · exact ⟨[e], es, rfl, hout h s e hI hC.1 o ho⟩
      · obtain ⟨es₁, es₂, rfl, hP⟩ := ih (hstep h s e hI hC.1) hC.2 o ho
        refine ⟨e :: es₁, es₂, rfl, ?_⟩
        rwa [List.append_assoc, List.singleton_append] at hP

/-- **The step rule**: with an invariant kept by every guarded step, what every
guarded step from an invariant state guarantees holds of every step of a guarded
run. -/
theorem guarded_run {C P : σ → ε → Prop} {I : σ → Prop}
    (hstep : ∀ s e, I s → C s e → I (M.step s e).1) (hP : ∀ s e, I s → C s e → P s e)
    {s : σ} (hI : I s) {es : List ε} (hC : M.Guarded C s es) : M.Guarded P s es := by
  induction es generalizing s with
  | nil => trivial
  | cons e es ih => exact ⟨hP s e hI hC.1, ih (hstep s e hI hC.1) hC.2⟩

/-- **The rule for equivalent guards**: with an invariant that every step that meets one of two
guards keeps, and under which the guards are equivalent, a run meets one of them exactly if it meets
the other. -/
theorem guarded_iff {C P : σ → ε → Prop} {I : σ → Prop} (hiff : ∀ s e, I s → (P s e ↔ C s e))
    (hstep : ∀ s e, I s → C s e → I (M.step s e).1) {s : σ} (hI : I s) {es : List ε} :
    M.Guarded P s es ↔ M.Guarded C s es := by
  induction es generalizing s with
  | nil => exact Iff.rfl
  | cons e es ih =>
      refine (and_congr_left' (hiff s e hI)).trans (and_congr_right fun he => ?_)
      exact ih (hstep s e hI he)

/-- **The rule for what a guard is equivalent to**: what a step keeps exactly if it meets the guard
holds after all steps of a run exactly if all of them meet it. -/
theorem always_iff_guarded {C : σ → ε → Prop} {I : σ → Prop}
    (hstep : ∀ s e, I s → (I (M.step s e).1 ↔ C s e)) {s : σ} (hI : I s) {es : List ε} :
    (∀ before, before <+: es → I (M.runState s before)) ↔ M.Guarded C s es := by
  induction es generalizing s with
  | nil =>
      refine iff_of_true (fun before h => ?_) trivial
      rw [List.prefix_nil.mp h]
      exact hI
  | cons e es ih =>
      constructor
      · intro h
        have hnext : I (M.step s e).1 := h [e] (List.prefix_append [e] es)
        refine ⟨(hstep s e hI).mp hnext, (ih hnext).mp fun before hbefore => ?_⟩
        exact h (e :: before) ((List.cons_prefix_cons).mpr ⟨rfl, hbefore⟩)
      · rintro ⟨he, hes⟩ before hbefore
        rcases before with - | ⟨e', before⟩
        · exact hI
        · obtain ⟨rfl, hrest⟩ := List.cons_prefix_cons.mp hbefore
          exact (ih ((hstep s _ hI).mpr he)).mpr hes before hrest

/-- **The budget rule**: what every step spends on outputs of a kind it takes from a budget, so a
run has no more of them than the budget at its start. -/
theorem budget_run {B : σ → ℕ} {q : ο → Bool}
    (hstep : ∀ s e, (M.step s e).2.countP q + B (M.step s e).1 ≤ B s) (s : σ) (es : List ε) :
    (M.runOutputs s es).countP q + B (M.runState s es) ≤ B s := by
  induction es generalizing s with
  | nil => exact Nat.le_of_eq (Nat.zero_add _)
  | cons e es ih =>
      rw [runOutputs_cons, List.countP_append, Nat.add_assoc]
      exact Nat.le_trans (Nat.add_le_add_left (ih _) _) (hstep s e)

/-! ### Keeping a history -/

variable (M)

/-- The machine with a history beside its state, which its steps do not read. -/
def withHistory {γ : Type*} (record : γ → σ → ε → γ) : Machine (σ × γ) ε ο where
  step s e := (((M.step s.1 e).1, record s.2 s.1 e), (M.step s.1 e).2)

variable {M}

/-- The history does not change what the machine does. -/
@[simp] theorem withHistory_runState_fst {γ : Type*} (record : γ → σ → ε → γ) (s : σ × γ)
    (es : List ε) : ((M.withHistory record).runState s es).1 = M.runState s.1 es := by
  induction es generalizing s with
  | nil => rfl
  | cons e es ih => exact ih _

@[simp] theorem withHistory_runOutputs {γ : Type*} (record : γ → σ → ε → γ) (s : σ × γ)
    (es : List ε) : (M.withHistory record).runOutputs s es = M.runOutputs s.1 es := by
  induction es generalizing s with
  | nil => rfl
  | cons e es ih =>
      rw [runOutputs_cons, runOutputs_cons, ih]
      rfl

end Machine
