/-
ZGalaxy/Reader.lean

Readers of byte strings that know where they are.

A reader takes a byte string and a position, and fails or returns a value and the position after
it.  Two questions are asked of one.  Does it get back what was written?  `ReadsBack r v enc` says
that `r` gets `v` from the bytes `enc` wherever they stand and stops after them; it goes through
sequences (`ReadsBack.bind`) and repetitions (`ReadsBack.many`).  What must a value be that it
returned?  `bind_ok` and `many_ok` take a reader that succeeded apart.  A reader is `Local` when it
goes forward and its result depends on no byte behind the position it returns.
-/
import ZGalaxy.Bytes

open ByteList

/-- A reader that fails with an `ε` or returns an `α`. -/
def Reader (ε : Type) (α : Type) := Bytes → ℕ → Except ε (α × ℕ)

namespace Reader

variable {ε α β : Type}

instance : Monad (Reader ε) where
  pure v := fun _ p => .ok (v, p)
  bind r f := fun b p =>
    match r b p with
    | .error e => .error e
    | .ok (v, p) => f v b p

/-- Fail. -/
def fail (e : ε) : Reader ε α := fun _ _ => .error e

/-- Go on `n` bytes further, which need not be there. -/
def skip (n : ℕ) : Reader ε Unit := fun _ p => .ok ((), p + n)

/-- `n` values one after another. -/
def many (r : Reader ε α) : ℕ → Reader ε (List α)
  | 0 => pure []
  | n + 1 => do
      let v ← r
      let vs ← many r n
      pure (v :: vs)

/-! ### What a reader that succeeds has done -/

theorem pure_ok {v : α} {b : Bytes} {p : ℕ} {out : α × ℕ} :
    (pure v : Reader ε α) b p = .ok out ↔ out = (v, p) := by
  show Except.ok (v, p) = .ok out ↔ _
  rw [Except.ok.injEq, eq_comm]

theorem bind_eq (r : Reader ε α) (f : α → Reader ε β) (b : Bytes) (p : ℕ) :
    (r >>= f) b p = match r b p with
      | .error e => .error e
      | .ok (v, q) => f v b q := rfl

theorem bind_ok {r : Reader ε α} {f : α → Reader ε β} {b : Bytes} {p : ℕ} {out : β × ℕ} :
    (r >>= f) b p = .ok out ↔ ∃ v q, r b p = .ok (v, q) ∧ f v b q = .ok out := by
  rw [bind_eq]
  rcases r b p with e | ⟨v, q⟩
  · constructor
    · intro h
      cases h
    · rintro ⟨_, _, h, _⟩
      cases h
  · constructor
    · intro h
      exact ⟨v, q, rfl, h⟩
    · rintro ⟨_, _, h, hf⟩
      cases h
      exact hf

/-- A reader that succeeds hands over to the next one. -/
theorem bind_of_ok {r : Reader ε α} {f : α → Reader ε β} {b : Bytes} {p q : ℕ} {v : α}
    (h : r b p = .ok (v, q)) : (r >>= f) b p = f v b q := by
  rw [bind_eq, h]

/-- Two sequences of readers that begin alike, and of which one makes something of the value of the
other. -/
theorem bind_map_congr {γ : Type} {r : Reader ε α} {f : α → Reader ε β} {g : α → Reader ε γ}
    {k : γ × ℕ → β × ℕ} (h : ∀ v b p, f v b p = (g v b p).map k) (b : Bytes) (p : ℕ) :
    (r >>= f) b p = ((r >>= g) b p).map k := by
  rw [bind_eq, bind_eq]
  rcases r b p with e | ⟨v, q⟩
  · rfl
  · exact h v b q

theorem many_ok {r : Reader ε α} {n : ℕ} {b : Bytes} {p : ℕ} {vs : List α} {q : ℕ}
    (h : many r n b p = .ok (vs, q)) :
    vs.length = n ∧ ∀ v ∈ vs, ∃ p' q', r b p' = .ok (v, q') := by
  induction n generalizing p vs q with
  | zero =>
      obtain ⟨rfl, -⟩ := Prod.mk.inj (pure_ok.mp h)
      exact ⟨rfl, fun v hv => absurd hv List.not_mem_nil⟩
  | succ n ih =>
      obtain ⟨v, p', hv, h⟩ := bind_ok.mp h
      obtain ⟨vs', q', hvs, h⟩ := bind_ok.mp h
      obtain ⟨rfl, -⟩ := Prod.mk.inj (pure_ok.mp h)
      obtain ⟨hlen, hmem⟩ := ih hvs
      refine ⟨by rw [List.length_cons, hlen], fun w hw => ?_⟩
      rcases List.mem_cons.mp hw with rfl | hw
      · exact ⟨p, p', hv⟩
      · exact hmem w hw

/-! ### Reading back -/

/-- The reader gets the value from these bytes wherever they stand, and stops after them. -/
def ReadsBack (r : Reader ε α) (v : α) (enc : Bytes) : Prop :=
  ∀ a c, r (a ++ (enc ++ c)) a.length = .ok (v, a.length + enc.length)

theorem ReadsBack.pure (v : α) : ReadsBack (pure v : Reader ε α) v [] := fun _ _ => rfl

/-- **One reader after another** gets one value after another. -/
theorem ReadsBack.bind {r : Reader ε α} {f : α → Reader ε β} {v : α} {w : β} {enc enc' : Bytes}
    (h : ReadsBack r v enc) (h' : ReadsBack (f v) w enc') :
    ReadsBack (r >>= f) w (enc ++ enc') := by
  intro a c
  refine bind_ok.mpr ⟨v, a.length + enc.length, ?_, ?_⟩
  · rw [List.append_assoc]
    exact h a (enc' ++ c)
  · have hf := h' (a ++ enc) c
    rw [List.length_append] at hf
    rw [List.append_assoc, List.length_append, ← Nat.add_assoc, ← List.append_assoc a enc]
    exact hf

/-- What is made of a value at the end. -/
theorem ReadsBack.map {r : Reader ε α} {v : α} {enc : Bytes} (h : ReadsBack r v enc) (f : α → β) :
    ReadsBack (r >>= fun w => Pure.pure (f w)) (f v) enc := by
  have hbind := h.bind (f := fun w => Pure.pure (f w)) (ReadsBack.pure (f v))
  rwa [List.append_nil] at hbind

/-- Bytes that do not matter are passed over. -/
theorem ReadsBack.skip (v : Bytes) : ReadsBack (skip v.length : Reader ε Unit) () v :=
  fun _ _ => rfl

/-- **A row is read back** when its members are, as the values that they stand for. -/
theorem ReadsBack.many_map {r : Reader ε α} {f : β → α} {enc : β → Bytes} {xs : List β}
    (h : ∀ x ∈ xs, ReadsBack r (f x) (enc x)) :
    ReadsBack (many r xs.length) (xs.map f) (xs.flatMap enc) := by
  induction xs with
  | nil => exact ReadsBack.pure []
  | cons x xs ih =>
      have hrest := ih fun y hy => h y (List.mem_cons_of_mem x hy)
      exact (h x List.mem_cons_self).bind (hrest.map (List.cons (f x)))

/-- **A list is read back** when its members are. -/
theorem ReadsBack.many {r : Reader ε α} {enc : α → Bytes} {vs : List α}
    (h : ∀ v ∈ vs, ReadsBack r v (enc v)) :
    ReadsBack (many r vs.length) vs (vs.flatMap enc) := by
  have hmap := ReadsBack.many_map (f := id) h
  rwa [List.map_id] at hmap

/-! ### Reading no further -/

end Reader

/-- The strings are the same before `q`. -/
def SameUntil (q : ℕ) (b b' : Bytes) : Prop := ∀ i, i < q → b'[i]? = b[i]?

theorem SameUntil.mono {q q' : ℕ} {b b' : Bytes} (h : SameUntil q b b') (hq : q' ≤ q) :
    SameUntil q' b b' := fun i hi => h i (hi.trans_le hq)

theorem SameUntil.length_le {q : ℕ} {b b' : Bytes} (h : SameUntil q b b') (hq : q ≤ b.length) :
    q ≤ b'.length := by
  rcases Nat.eq_zero_or_pos q with rfl | hpos
  · exact Nat.zero_le _
  · have hlast := h (q - 1) (by omega)
    rw [List.getElem?_eq_getElem (show q - 1 < b.length by omega)] at hlast
    have := (List.getElem?_eq_some_iff.mp hlast).1
    omega

theorem SameUntil.slice_eq {q i l : ℕ} {b b' : Bytes} (h : SameUntil q b b') (hq : i + l ≤ q) :
    slice b' i l = slice b i l := by
  apply List.ext_getElem?
  intro j
  rw [getElem?_slice, getElem?_slice]
  split_ifs with hj
  · exact h (i + j) (by omega)
  · rfl

namespace Reader

/-- A reader that goes forward, and whose result is that of the bytes before the position after it.
-/
def Local (r : Reader ε α) : Prop :=
  ∀ b p v q, r b p = .ok (v, q) → p ≤ q ∧ ∀ b', SameUntil q b b' → r b' p = .ok (v, q)

theorem Local.pure (v : α) : Local (pure v : Reader ε α) := by
  intro b p w q h
  obtain ⟨rfl, rfl⟩ := Prod.mk.inj (pure_ok.mp h)
  exact ⟨le_rfl, fun _ _ => rfl⟩

theorem Local.fail (e : ε) : Local (Reader.fail e : Reader ε α) := by
  intro b p v q h
  cases h

theorem Local.skip (n : ℕ) : Local (Reader.skip n : Reader ε Unit) := by
  intro b p v q h
  obtain ⟨-, rfl⟩ := Prod.mk.inj (Except.ok.inj h)
  exact ⟨Nat.le_add_right p n, fun _ _ => rfl⟩

/-- **One local reader after another** is local. -/
theorem Local.bind {r : Reader ε α} {f : α → Reader ε β} (hr : Local r) (hf : ∀ v, Local (f v)) :
    Local (r >>= f) := by
  intro b p w q h
  obtain ⟨v, m, hv, hw⟩ := bind_ok.mp h
  obtain ⟨hpm, hr'⟩ := hr b p v m hv
  obtain ⟨hmq, hf'⟩ := hf v b m w q hw
  refine ⟨hpm.trans hmq, fun b' same => ?_⟩
  exact bind_ok.mpr ⟨v, m, hr' b' (same.mono hmq), hf' b' same⟩

end Reader
