/-
ZGalaxy/Logged.lean

Programs that keep a log and may stop early, and what they guarantee.

A program of type `Logged ω ε α` writes what it does into a log of `ω` and ends with an `α`, or
stops with an `ε`.  `Guarantees P E m Q` says that whatever `m` writes satisfies `P`, that it stops
only with an `E`, and that what it ends with satisfies `Q`.  There is one rule for each way to put
programs together, so a proof follows the text of the program.
-/
import Mathlib.Data.List.Basic

/-- A program that keeps a log of `ω` and stops early with an `ε`. -/
abbrev Logged (ω ε : Type) := StateT (List ω) (Except ε)

namespace Logged

variable {ω ε α β : Type}

/-- Writes to the log. -/
def tell (o : ω) : Logged ω ε Unit := fun log => .ok ((), log ++ [o])

/-- Stops early. -/
def stop (e : ε) : Logged ω ε α := fun _ => .error e

/-- What a run has come to: an end with a log and a result, or an early stop. -/
def Outcome (P : ω → Prop) (E : ε → Prop) (Q : α → Prop) : Except ε (α × List ω) → Prop
  | .ok r => (∀ o ∈ r.2, P o) ∧ Q r.1
  | .error e => E e

/-- The program writes only what satisfies `P`, stops only with an `E`, and ends with a `Q`. -/
def Guarantees (P : ω → Prop) (E : ε → Prop) (m : Logged ω ε α) (Q : α → Prop) : Prop :=
  ∀ log, (∀ o ∈ log, P o) → Outcome P E Q (m log)

variable {P : ω → Prop} {E : ε → Prop} {m : Logged ω ε α} {Q R : α → Prop}

theorem Guarantees.pure {a : α} (h : Q a) : Guarantees P E (Pure.pure a) Q :=
  fun _ hlog => ⟨hlog, h⟩

theorem Guarantees.tell {o : ω} (h : P o) : Guarantees P E (Logged.tell o) fun _ => True := by
  intro log hlog
  refine ⟨fun o' ho' => ?_, trivial⟩
  rcases List.mem_append.mp ho' with ho' | ho'
  · exact hlog o' ho'
  · exact List.mem_singleton.mp ho' ▸ h

theorem Guarantees.stop {e : ε} (h : E e) : Guarantees P E (Logged.stop e) Q := fun _ _ => h

/-- **The rule for sequences.** -/
theorem Guarantees.bind {f : α → Logged ω ε β} {S : β → Prop} (hm : Guarantees P E m Q)
    (hf : ∀ a, Q a → Guarantees P E (f a) S) : Guarantees P E (m >>= f) S := by
  intro log hlog
  have hrun := hm log hlog
  show Outcome P E S (Except.bind (m log) fun r => f r.1 r.2)
  generalize m log = out at hrun
  cases out with
  | error e => exact hrun
  | ok r => exact hf r.1 hrun.2 r.2 hrun.1

theorem Guarantees.map {f : α → β} {S : β → Prop} (hm : Guarantees P E m fun a => S (f a)) :
    Guarantees P E (f <$> m) S := hm.bind fun _ ha => Guarantees.pure ha

/-- **The rule for consequences.** -/
theorem Guarantees.imp (hm : Guarantees P E m Q) (h : ∀ a, Q a → R a) : Guarantees P E m R := by
  intro log hlog
  have hrun := hm log hlog
  generalize m log = out at hrun ⊢
  cases out with
  | error e => exact hrun
  | ok r => exact ⟨hrun.1, h r.1 hrun.2⟩

/-- **The rule for branches.** -/
theorem Guarantees.ite {c : Prop} [Decidable c] {m' : Logged ω ε α}
    (hm : c → Guarantees P E m Q) (hm' : ¬c → Guarantees P E m' Q) :
    Guarantees P E (if c then m else m') Q := by
  split_ifs with h
  · exact hm h
  · exact hm' h

/-- What a run from an empty log guarantees. -/
theorem Guarantees.run (h : Guarantees P E m Q) : Outcome P E Q (m []) :=
  h [] fun _ ho => absurd ho List.not_mem_nil

end Logged
