/-
ZGalaxy/Chains.lean

Linked cells in a memory.

A memory tells for every address whether it is in use, and then which cell is there: a value and
the address of the next cell.  A list of addresses with their values is chained from a link if
following the links comes to them one after another and then to the end.  Whoever reads at an
address that is not in use is at fault, and so is whoever follows links without coming to an end.

The loops over a chain are defined by what they read, with a number of steps that they may take.
Main results: `Chained.congr` (only the cells of a chain matter to it), `Chained.readAll_eq`,
`Chained.find_eq`, and `Chained.unlink_eq`, that the loop which remembers the cell before the
current one takes out the first cell that it looks for, and writes nothing else.
-/
import Mathlib.Data.List.Nodup
import Mathlib.Data.List.Perm.Subperm
import Mathlib.Logic.Function.Basic

namespace Chains

/-- A value, and the link to the next cell. -/
structure Cell (α : Type) where
  val : α
  next : Option ℕ

/-- Which addresses are in use, and for what. -/
abbrev Memory (α : Type) := ℕ → Option (Cell α)

/-- What goes wrong: an address that is not in use is read, or links are followed without end. -/
inductive Fault
  | dangling
  | endless
deriving DecidableEq

variable {α : Type}

namespace Memory

variable (m : Memory α)

def read (p : ℕ) : Except Fault (Cell α) :=
  match m p with
  | none => .error .dangling
  | some c => .ok c

def write (p : ℕ) (c : Cell α) : Memory α := Function.update m p (some c)

def free (p : ℕ) : Memory α := Function.update m p none

variable {m}

theorem read_eq {p : ℕ} {c : Cell α} (h : m p = some c) : m.read p = .ok c := by
  rw [read, h]

@[simp] theorem write_self (p : ℕ) (c : Cell α) : m.write p c p = some c :=
  Function.update_self _ _ _

theorem write_of_ne {p q : ℕ} (h : q ≠ p) (c : Cell α) : m.write p c q = m q :=
  Function.update_of_ne h _ _

theorem free_of_ne {p q : ℕ} (h : q ≠ p) : m.free p q = m q := Function.update_of_ne h _ _

end Memory

/-! ### Chains -/

/-- From the link `b` one comes to the cells `l`, and then to the end. -/
def Chained (m : Memory α) : Option ℕ → List (ℕ × α) → Prop
  | b, [] => b = none
  | b, x :: l => b = some x.1 ∧ ∃ next, m x.1 = some ⟨x.2, next⟩ ∧ Chained m next l

/-- The addresses of cells. -/
def addresses (l : List (ℕ × α)) : List ℕ := l.map Prod.fst

@[simp] theorem addresses_nil : addresses ([] : List (ℕ × α)) = [] := rfl

@[simp] theorem addresses_cons (x : ℕ × α) (l : List (ℕ × α)) :
    addresses (x :: l) = x.1 :: addresses l := rfl

@[simp] theorem addresses_append (l l' : List (ℕ × α)) :
    addresses (l ++ l') = addresses l ++ addresses l' := List.map_append

variable {m m' : Memory α} {b : Option ℕ} {l : List (ℕ × α)}

/-- What is chained is in the memory. -/
theorem Chained.mem (h : Chained m b l) {x : ℕ × α} (hx : x ∈ l) :
    ∃ next, m x.1 = some ⟨x.2, next⟩ := by
  induction l generalizing b with
  | nil => exact absurd hx List.not_mem_nil
  | cons y l ih =>
      obtain ⟨-, next, hy, hl⟩ := h
      rcases List.mem_cons.mp hx with rfl | hx
      · exact ⟨next, hy⟩
      · exact ih hl hx

/-- **The frame of a chain** are its own cells. -/
theorem Chained.congr (h : Chained m b l) (hm : ∀ p ∈ addresses l, m' p = m p) :
    Chained m' b l := by
  induction l generalizing b with
  | nil => exact h
  | cons x l ih =>
      obtain ⟨hb, next, hx, hl⟩ := h
      refine ⟨hb, next, (hm _ List.mem_cons_self).trans hx, ih hl fun p hp => ?_⟩
      exact hm p (List.mem_cons_of_mem _ hp)

theorem Chained.write (h : Chained m b l) {p : ℕ} (hp : p ∉ addresses l) (c : Cell α) :
    Chained (m.write p c) b l :=
  h.congr fun q hq => Memory.write_of_ne (fun heq : q = p => hp (heq ▸ hq)) c

theorem Chained.free (h : Chained m b l) {p : ℕ} (hp : p ∉ addresses l) :
    Chained (m.free p) b l :=
  h.congr fun q hq => Memory.free_of_ne fun heq : q = p => hp (heq ▸ hq)

/-- One more cell in front. -/
theorem Chained.push (h : Chained m b l) {p : ℕ} (hp : p ∉ addresses l) (a : α) :
    Chained (m.write p ⟨a, b⟩) (some p) ((p, a) :: l) :=
  ⟨rfl, b, Memory.write_self p _, h.write hp _⟩

/-- Another value in one of the cells. -/
theorem Chained.setVal (h : Chained m b l) {p : ℕ} {a : α} {next : Option ℕ}
    (hp : m p = some ⟨a, next⟩) (a' : α) :
    Chained (m.write p ⟨a', next⟩) b (l.map fun x => if x.1 = p then (x.1, a') else x) := by
  induction l generalizing b with
  | nil => exact h
  | cons x l ih =>
      obtain ⟨rfl, next', hx, hl⟩ := h
      rw [List.map_cons]
      by_cases hxp : x.1 = p
      · rw [if_pos hxp]
        have hsame : next' = next := by
          rw [hxp, hp, Option.some.injEq, Cell.mk.injEq] at hx
          exact hx.2.symm
        refine ⟨rfl, next, ?_, hsame ▸ ih hl⟩
        rw [hxp, Memory.write_self]
      · rw [if_neg hxp]
        exact ⟨rfl, next', (Memory.write_of_ne hxp _).trans hx, ih hl⟩

/-- Addresses below a bound are not more than the bound. -/
theorem length_le_of_nodup {l : List (ℕ × α)} (hn : (addresses l).Nodup) {n : ℕ}
    (hl : ∀ p ∈ addresses l, p < n) : l.length ≤ n := by
  have hsub : (addresses l).Subperm (List.range n) :=
    hn.subperm fun p hp => List.mem_range.mpr (hl p hp)
  have hle := hsub.length_le
  rwa [addresses, List.length_map, List.length_range] at hle

/-! ### Loops -/

/-- All cells from a link on. -/
def readAll (m : Memory α) : ℕ → Option ℕ → Except Fault (List α)
  | 0, _ => .error .endless
  | _ + 1, none => .ok []
  | n + 1, some p => do
      let c ← m.read p
      let rest ← readAll m n c.next
      pure (c.val :: rest)

/-- The loop that stops at the first cell whose value has the property. -/
def find (m : Memory α) (is : α → Bool) : ℕ → Option ℕ → Except Fault (Option ℕ)
  | 0, _ => .error .endless
  | _ + 1, none => .ok none
  | n + 1, some p => do
      let c ← m.read p
      if is c.val then pure (some p) else find m is n c.next

/-- The loop that gives back every cell. -/
def freeAll : ℕ → Memory α → Option ℕ → Except Fault (Memory α)
  | 0, _, _ => .error .endless
  | _ + 1, m, none => .ok m
  | n + 1, m, some p => do
      let c ← m.read p
      freeAll n (m.free p) c.next

theorem Chained.readAll_eq (h : Chained m b l) {n : ℕ} (hn : l.length < n) :
    readAll m n b = .ok (l.map Prod.snd) := by
  induction l generalizing b n with
  | nil =>
      obtain ⟨n, rfl⟩ := Nat.exists_eq_succ_of_ne_zero (Nat.ne_of_gt hn)
      rw [show b = none from h]
      rfl
  | cons x l ih =>
      obtain ⟨n, rfl⟩ := Nat.exists_eq_succ_of_ne_zero (Nat.ne_of_gt (Nat.zero_lt_of_lt hn))
      obtain ⟨rfl, next, hx, hl⟩ := h
      have hrest := ih hl (Nat.lt_of_succ_lt_succ hn)
      rw [readAll, Memory.read_eq hx]
      show (readAll m n next >>= fun rest => pure (x.2 :: rest)) = _
      rw [hrest]
      rfl

theorem Chained.find_eq (h : Chained m b l) (is : α → Bool) {n : ℕ} (hn : l.length < n) :
    find m is n b = .ok ((l.find? fun x => is x.2).map Prod.fst) := by
  induction l generalizing b n with
  | nil =>
      obtain ⟨n, rfl⟩ := Nat.exists_eq_succ_of_ne_zero (Nat.ne_of_gt hn)
      rw [show b = none from h]
      rfl
  | cons x l ih =>
      obtain ⟨n, rfl⟩ := Nat.exists_eq_succ_of_ne_zero (Nat.ne_of_gt (Nat.zero_lt_of_lt hn))
      obtain ⟨rfl, next, hx, hl⟩ := h
      have hrest := ih hl (Nat.lt_of_succ_lt_succ hn)
      rw [find, Memory.read_eq hx]
      show (if is x.2 then Except.ok (some x.1) else find m is n next) = _
      by_cases his : is x.2 = true
      · rw [if_pos his, List.find?_cons_of_pos (p := fun x : ℕ × α => is x.2) his]
        rfl
      · rw [if_neg his, List.find?_cons_of_neg (p := fun x : ℕ × α => is x.2) his, hrest]

/-- Giving back a chain changes nothing else. -/
theorem Chained.freeAll_eq (h : Chained m b l) (hl : (addresses l).Nodup) {n : ℕ}
    (hn : l.length < n) :
    ∃ m', freeAll n m b = .ok m' ∧ ∀ p ∉ addresses l, m' p = m p := by
  induction l generalizing m b n with
  | nil =>
      obtain ⟨n, rfl⟩ := Nat.exists_eq_succ_of_ne_zero (Nat.ne_of_gt hn)
      rw [show b = none from h]
      exact ⟨m, rfl, fun _ _ => rfl⟩
  | cons x l ih =>
      obtain ⟨n, rfl⟩ := Nat.exists_eq_succ_of_ne_zero (Nat.ne_of_gt (Nat.zero_lt_of_lt hn))
      obtain ⟨rfl, next, hx, hchain⟩ := h
      rw [addresses_cons, List.nodup_cons] at hl
      obtain ⟨m', hm', hframe⟩ := ih (hchain.free hl.1) hl.2 (Nat.lt_of_succ_lt_succ hn)
      refine ⟨m', ?_, fun p hp => ?_⟩
      · rw [freeAll, Memory.read_eq hx]
        exact hm'
      · rw [addresses_cons, List.mem_cons, not_or] at hp
        exact (hframe p hp.2).trans (Memory.free_of_ne hp.1)

/-! ### Taking a cell out -/

/-- Where the link to the current cell is: in the row, or in the cell before. -/
def relink (m : Memory α) (first : Option ℕ) (next : Option ℕ) :
    Option ℕ → Except Fault (Memory α × Option ℕ)
  | none => .ok (m, next)
  | some q => do
      let c ← m.read q
      pure (m.write q { c with next := next }, first)

/-- The loop that takes out the first cell that it looks for: with `first` the link to the whole
chain, `last` the cell before the current one, if there is one, and `is` told the memory too.  The
result is the memory and the link to the chain, if there is such a cell. -/
def unlink (m : Memory α) (is : α → Except Fault Bool) (first : Option ℕ) :
    ℕ → Option ℕ → Option ℕ → Except Fault (Option (Memory α × Option ℕ))
  | 0, _, _ => .error .endless
  | _ + 1, _, none => .ok none
  | n + 1, last, some p => do
      let c ← m.read p
      if ← is c.val then do
        let r ← relink m first c.next last
        pure (some (r.1.free p, r.2))
      else unlink m is first n (some p) c.next

section Unlink

variable {is : α → Except Fault Bool} {pre post : List (ℕ × α)} {x : ℕ × α}
  (hpre : ∀ y ∈ pre, is y.2 = .ok false) (hx : is x.2 = .ok true)
include hpre hx

/-- After a cell `q` that is not the one, with the value `a`. -/
theorem Chained.unlink_after (h : Chained m b (pre ++ x :: post)) (first : Option ℕ) {q : ℕ}
    {a : α} (hq : m q = some ⟨a, b⟩) (hn : (q :: addresses (pre ++ x :: post)).Nodup) {n : ℕ}
    (hlen : (pre ++ x :: post).length < n) :
    ∃ m' b', unlink m is first n (some q) b = .ok (some (m', first)) ∧ m' q = some ⟨a, b'⟩ ∧
      Chained m' b' (pre ++ post) ∧
      ∀ p ∉ q :: addresses (pre ++ [x]), m' p = m p := by
  -- on the cells in front of it: the search passes them, and `q` is always the one just passed
  induction pre generalizing b q a n with
  | nil =>
      obtain ⟨n, rfl⟩ := Nat.exists_eq_succ_of_ne_zero (Nat.ne_of_gt (Nat.zero_lt_of_lt hlen))
      obtain ⟨rfl, next, hxm, hpost⟩ := h
      simp only [List.nil_append, addresses_cons, List.nodup_cons, List.mem_cons, not_or] at hn
      obtain ⟨⟨hqx, hqpost⟩, hxpost, -⟩ := hn
      refine ⟨(m.write q ⟨a, next⟩).free x.1, next, ?_, ?_, (hpost.write hqpost _).free hxpost,
        fun p hp => ?_⟩
      · rw [unlink, Memory.read_eq hxm]
        show (is x.2 >>= _) = _
        rw [hx]
        show (relink m first next (some q) >>= _) = _
        rw [relink, Memory.read_eq hq]
        rfl
      · rw [Memory.free_of_ne hqx, Memory.write_self]
      · simp only [List.nil_append, addresses_cons, addresses_nil, List.mem_cons, not_or] at hp
        rw [Memory.free_of_ne hp.2.1, Memory.write_of_ne hp.1]
  | cons y pre ih =>
      obtain ⟨n, rfl⟩ := Nat.exists_eq_succ_of_ne_zero (Nat.ne_of_gt (Nat.zero_lt_of_lt hlen))
      obtain ⟨rfl, next, hym, hrest⟩ := h
      rw [List.cons_append, addresses_cons, List.nodup_cons] at hn
      obtain ⟨m', b', hrun, hy', hchain, hframe⟩ :=
        ih (fun z hz => hpre z (List.mem_cons_of_mem _ hz)) hrest hym hn.2
          (Nat.lt_of_succ_lt_succ hlen)
      have hqy : q ∉ y.1 :: addresses (pre ++ [x]) := by
        intro hmem
        refine hn.1 ?_
        rw [addresses_append, addresses_cons, addresses_nil] at hmem
        rw [addresses_append, addresses_cons]
        rcases List.mem_cons.mp hmem with hmem | hmem
        · exact hmem ▸ List.mem_cons_self
        · refine List.mem_cons_of_mem _ ?_
          rcases List.mem_append.mp hmem with hmem | hmem
          · exact List.mem_append_left _ hmem
          · exact List.mem_append_right _ (List.mem_singleton.mp hmem ▸ List.mem_cons_self)
      refine ⟨m', some y.1, ?_, (hframe q hqy).trans hq, ⟨rfl, b', hy', hchain⟩, fun p hp => ?_⟩
      · rw [unlink, Memory.read_eq hym]
        show (is y.2 >>= _) = _
        rw [hpre y List.mem_cons_self]
        exact hrun
      · exact hframe p fun hmem => hp (List.mem_cons_of_mem _ hmem)

/-- **Unlinking** takes out the first cell that it looks for, and writes no cell after it. -/
theorem Chained.unlink_eq (h : Chained m b (pre ++ x :: post))
    (hn : (addresses (pre ++ x :: post)).Nodup) {n : ℕ} (hlen : (pre ++ x :: post).length < n) :
    ∃ m' b', unlink m is b n none b = .ok (some (m', b')) ∧ Chained m' b' (pre ++ post) ∧
      ∀ p ∉ addresses (pre ++ [x]), m' p = m p := by
  obtain ⟨n, rfl⟩ := Nat.exists_eq_succ_of_ne_zero (Nat.ne_of_gt (Nat.zero_lt_of_lt hlen))
  rcases pre with - | ⟨y, pre⟩
  · obtain ⟨rfl, next, hxm, hpost⟩ := h
    rw [List.nil_append, addresses_cons, List.nodup_cons] at hn
    refine ⟨m.free x.1, next, ?_, hpost.free hn.1, fun p hp => ?_⟩
    · rw [unlink, Memory.read_eq hxm]
      show (is x.2 >>= _) = _
      rw [hx]
      rfl
    · exact Memory.free_of_ne fun heq => hp (heq ▸ List.mem_cons_self)
  · obtain ⟨rfl, next, hym, hrest⟩ := h
    obtain ⟨m', b', hrun, hy', hchain, hframe⟩ :=
      Chained.unlink_after (fun z hz => hpre z (List.mem_cons_of_mem _ hz)) hx hrest (some y.1) hym
        hn (Nat.lt_of_succ_lt_succ hlen)
    refine ⟨m', some y.1, ?_, ⟨rfl, b', hy', hchain⟩, hframe⟩
    rw [unlink, Memory.read_eq hym]
    show (is y.2 >>= _) = _
    rw [hpre y List.mem_cons_self]
    exact hrun

end Unlink

/-- Nothing is found, and nothing is written. -/
theorem Chained.unlink_none (h : Chained m b l) {is : α → Except Fault Bool}
    (hl : ∀ y ∈ l, is y.2 = .ok false) {n : ℕ} (hn : l.length < n) (first last : Option ℕ) :
    unlink m is first n last b = .ok none := by
  induction l generalizing b n last with
  | nil =>
      obtain ⟨n, rfl⟩ := Nat.exists_eq_succ_of_ne_zero (Nat.ne_of_gt hn)
      rw [show b = none from h]
      rfl
  | cons x l ih =>
      obtain ⟨n, rfl⟩ := Nat.exists_eq_succ_of_ne_zero (Nat.ne_of_gt (Nat.zero_lt_of_lt hn))
      obtain ⟨rfl, next, hx, hchain⟩ := h
      rw [unlink, Memory.read_eq hx]
      show (is x.2 >>= _) = _
      rw [hl x List.mem_cons_self]
      exact ih hchain (fun y hy => hl y (List.mem_cons_of_mem _ hy)) (Nat.lt_of_succ_lt_succ hn) _

end Chains
