/-
ZGalaxy/Dictionary.lean

The dictionary: lines `key=value` in a buffer of `C` bytes, where a null byte ends them.

Reading and writing are on the bytes of the buffer, at positions.  A read outside of the bytes that
it is given, and a write outside of the destination, is a fault, so that a search that comes to its
end on a part of the buffer has read nothing outside of that part.  An escape in a value is a
backslash with one more byte; a line ends at a carriage return or a line feed.

What a search finds depends on the text before the null alone (`lookup`), and to find it, it reads
no further than that null (`get_eq`).
-/
import ZGalaxy.Bytes

namespace ZGalaxy

open ByteList

namespace Dictionary

/-- What goes wrong: a read outside of the memory, a write outside of the destination, or a loop
that is not at its end after so many turns. -/
inductive Fault
  | read
  | write
  | turns
deriving DecidableEq

/-- A line feed. -/
def lineFeed : UInt8 := 10

/-- The byte between a key and its value. -/
def equals : UInt8 := 61

/-- The byte before an escaped one. -/
def backslash : UInt8 := 92

/-- A null, a carriage return or a line feed. -/
def ends (c : UInt8) : Bool := c == 0 || c == 13 || c == lineFeed

/-- What a byte stands for after a backslash. -/
def unescaped (c : UInt8) : UInt8 :=
  if c = 114 then 13
  else if c = 110 then 10
  else if c = 48 then 0
  else if c = 101 then equals
  else c

/-- How a byte of a value is written. -/
def escape (c : UInt8) : Bytes :=
  if c = 0 then [backslash, 48]
  else if c = 13 then [backslash, 114]
  else if c = 10 then [backslash, 110]
  else if c = backslash then [backslash, backslash]
  else if c = equals then [backslash, 101]
  else [c]

/-! ### Searching -/

section Search

-- the capacity, the bytes that may be read, the key, and the size of the destination
variable (C : ℕ) (d key : Bytes) (destlen : ℕ)

/-- `*p`. -/
def peek (p : ℕ) : Except Fault UInt8 :=
  match d[p]? with
  | some c => .ok c
  | none => .error .read

/-- `dest[j++] = c`, where `j` bytes have been written. -/
def put (dest : Bytes) (c : UInt8) : Except Fault Bytes :=
  if dest.length < destlen then .ok (dest ++ [c]) else .error .write

/-- `dest[0] = 0; return -1`. -/
def absent (dest : Bytes) : Except Fault (ℤ × Bytes) :=
  if 0 < destlen then .ok (-1, 0 :: dest.tail) else .error .write

/-- The loop over a value, from `p` on. -/
def readValue : ℕ → Bool → Bytes → ℕ → Except Fault (ℤ × Bytes)
  | 0, _, _, _ => .error .turns
  | n + 1, esc, dest, p => do
      let c ← peek d p
      if ends c then do
        let terminated ← put destlen dest 0
        pure (dest.length, terminated)
      else if esc then do
        let dest ← put destlen dest (unescaped c)
        if dest.length = destlen then pure ((destlen - 1 : ℕ), dest.set (destlen - 1) 0)
        else if p + 1 = C then absent destlen dest
        else readValue n false dest (p + 1)
      else if c = backslash then
        if p + 1 = C then absent destlen dest else readValue n true dest (p + 1)
      else do
        let dest ← put destlen dest c
        if dest.length = destlen then pure ((destlen - 1 : ℕ), dest.set (destlen - 1) 0)
        else if p + 1 = C then absent destlen dest
        else readValue n false dest (p + 1)

/-- The loop over a key: what is left of it, and where, unless the buffer ends. -/
def matchKey : Bytes → ℕ → Except Fault (Option (Bytes × ℕ))
  | [], p => pure (some ([], p))
  | x :: k, p => do
      let c ← peek d p
      if c = 0 ∨ c ≠ x then pure (some (x :: k, p))
      else if p + 1 = C then pure none
      else matchKey k (p + 1)

/-- The loop to the end of a line, unless the buffer ends. -/
def skipLine : ℕ → ℕ → Except Fault (Option ℕ)
  | 0, _ => .error .turns
  | n + 1, p => do
      let c ← peek d p
      if ends c then pure (some p) else if p + 1 = C then pure none else skipLine n (p + 1)

/-- Whether the value of the key begins after `p`. -/
def atValue (k : Bytes) (p : ℕ) : Except Fault Bool :=
  if k = [] then do
    let c ← peek d p
    pure (c == equals)
  else pure false

/-- The loop over the lines, from `p` on. -/
def getFrom : ℕ → ℕ → Except Fault (ℤ × Bytes)
  | 0, _ => .error .turns
  | n + 1, p => do
      let c ← peek d p
      if c = 0 then absent destlen []
      else do
        let m ← matchKey C d key p
        match m with
        | none => absent destlen []
        | some m => do
            let found ← atValue d m.1 m.2
            if found then readValue C d destlen C false [] (m.2 + 1)
            else do
              let q ← skipLine C d C m.2
              match q with
              | none => absent destlen []
              | some q => do
                  let c ← peek d q
                  if c = 0 then absent destlen []
                  else if q + 1 = C then absent destlen []
                  else getFrom n (q + 1)

/-- `Dictionary::get`: what it returns, and what it writes to the destination. -/
def get : Except Fault (ℤ × Bytes) :=
  if destlen = 0 then .ok (-1, []) else getFrom C d key destlen C 0

end Search

/-! ### What a text says -/

/-- What is left of a key and of a text after the bytes at which they agree. -/
def stripKey : Bytes → Bytes → Bytes × Bytes
  | [], t => ([], t)
  | x :: k, [] => (x :: k, [])
  | x :: k, c :: t => if c ≠ x then (x :: k, c :: t) else stripKey k t

/-- A value that is read from a text, after a backslash or not. -/
def unescape : Bool → Bytes → Bytes
  | _, [] => []
  | esc, c :: t =>
      if ends c then []
      else if esc then unescaped c :: unescape false t
      else if c = backslash then unescape true t
      else c :: unescape false t

/-- The text from the end of a line on. -/
def lineEnd (t : Bytes) : Bytes := t.dropWhile fun c => !ends c

/-- The value of a key in a text, looked for in so many lines. -/
def lookup (key : Bytes) : ℕ → Bytes → Option Bytes
  | 0, _ => none
  | _ + 1, [] => none
  | n + 1, c :: t =>
      let m := stripKey key (c :: t)
      if m.1 = [] ∧ m.2.head? = some equals then some (unescape false m.2.tail)
      else lookup key n (lineEnd m.2).tail

/-- What is returned for a value, and written to a destination of some size. -/
def delivered (destlen : ℕ) : Option Bytes → ℤ × Bytes
  | none => (-1, [0])
  | some v => ((v.take (destlen - 1)).length, v.take (destlen - 1) ++ [0])

/-- The text of a buffer, before its first null. -/
def text (d : Bytes) : Bytes := d.takeWhile fun c => c != 0

/-- The buffer has its capacity, and a null. -/
structure Terminated (C : ℕ) (d : Bytes) : Prop where
  size : d.length = C
  null : (0 : UInt8) ∈ d

/-! ### The loops on a text -/

section Text

variable {C : ℕ} {key : Bytes} {destlen : ℕ}

theorem ok_bind {α β : Type} (x : α) (f : α → Except Fault β) : (Except.ok x >>= f) = f x := rfl

theorem peek_at (a : Bytes) (c : UInt8) (b : Bytes) : peek (a ++ c :: b) a.length = .ok c := by
  rw [peek, List.getElem?_append_right le_rfl, Nat.sub_self]
  rfl

theorem ends_zero : ends 0 = true := rfl

theorem not_mem_cons {c : UInt8} {t : Bytes} (h : (0 : UInt8) ∉ c :: t) : c ≠ 0 ∧ (0 : UInt8) ∉ t :=
  ⟨fun hc => h (hc ▸ List.mem_cons_self), fun ht => h (List.mem_cons_of_mem c ht)⟩

/-- There is room for a null where there was room for one byte more. -/
theorem put_of_lt {dest : Bytes} (h : dest.length < destlen) (c : UInt8) :
    put destlen dest c = .ok (dest ++ [c]) := if_pos h

/-- **The key**, as far as the text agrees with it. -/
theorem matchKey_text {t : Bytes} (h0 : (0 : UInt8) ∉ t) (a z : Bytes)
    (hC : a.length + t.length < C) (k : Bytes) :
    ∃ s, t = s ++ (stripKey k t).2 ∧ matchKey C (a ++ (t ++ 0 :: z)) k a.length =
      .ok (some ((stripKey k t).1, (a ++ s).length)) := by
  -- on the text: what matched is taken from the key and goes to the bytes before
  induction t generalizing a k with
  | nil =>
      refine ⟨[], ?_, ?_⟩
      · cases k with
        | nil => rfl
        | cons x k => rfl
      · rw [List.append_nil]
        cases k with
        | nil => rfl
        | cons x k =>
            rw [matchKey, List.nil_append, peek_at, ok_bind, if_pos (Or.inl rfl)]
            rfl
  | cons c t ih =>
      obtain ⟨hc, ht⟩ := not_mem_cons h0
      cases k with
      | nil => exact ⟨[], rfl, by rw [List.append_nil]; rfl⟩
      | cons x k =>
          rw [List.length_cons] at hC
          by_cases hx : c = x
          · obtain ⟨s, hs, hmatch⟩ := ih ht (a ++ [c])
              (by rw [List.length_append, List.length_singleton]; omega) k
            have hstrip : stripKey (x :: k) (c :: t) = stripKey k t := if_neg (not_not.mpr hx)
            refine ⟨c :: s, ?_, ?_⟩
            · rw [hstrip, List.cons_append, ← hs]
            · rw [List.append_assoc, List.singleton_append, List.length_append,
                List.length_singleton] at hmatch
              rw [matchKey, List.cons_append, peek_at, ok_bind,
                if_neg (not_or.mpr ⟨hc, not_not.mpr hx⟩), if_neg (by omega), hmatch, hstrip,
                List.append_assoc, List.singleton_append]
          · have hstrip : stripKey (x :: k) (c :: t) = (x :: k, c :: t) := if_pos hx
            refine ⟨[], ?_, ?_⟩
            · rw [hstrip]
              rfl
            · rw [matchKey, List.cons_append, peek_at, ok_bind, if_pos (Or.inr hx), hstrip,
                List.append_nil]
              rfl

/-- **The end of a line.** -/
theorem skipLine_text {t : Bytes} (h0 : (0 : UInt8) ∉ t) (a z : Bytes) {n : ℕ}
    (hC : a.length + t.length < C) (hn : t.length < n) :
    ∃ s, t = s ++ lineEnd t ∧
      skipLine C (a ++ (t ++ 0 :: z)) n a.length = .ok (some (a ++ s).length) := by
  -- on the text, byte by byte up to the end of the line
  induction t generalizing a n with
  | nil =>
      obtain ⟨n, rfl⟩ := Nat.exists_eq_succ_of_ne_zero (Nat.ne_zero_of_lt hn)
      refine ⟨[], rfl, ?_⟩
      rw [skipLine, List.nil_append, peek_at, ok_bind, ends_zero, if_pos rfl, List.append_nil]
      rfl
  | cons c t ih =>
      obtain ⟨n, rfl⟩ := Nat.exists_eq_succ_of_ne_zero (Nat.ne_zero_of_lt hn)
      obtain ⟨hc, ht⟩ := not_mem_cons h0
      rw [List.length_cons] at hC hn
      rcases hend : ends c with - | -
      · obtain ⟨s, hs, hskip⟩ := ih ht (a ++ [c])
          (by rw [List.length_append, List.length_singleton]; omega) (Nat.lt_of_succ_lt_succ hn)
        have hline : lineEnd (c :: t) = lineEnd t := List.dropWhile_cons_of_pos (by rw [hend]; rfl)
        refine ⟨c :: s, ?_, ?_⟩
        · rw [hline, List.cons_append, ← hs]
        · rw [List.append_assoc, List.singleton_append, List.length_append,
            List.length_singleton] at hskip
          rw [skipLine, List.cons_append, peek_at, ok_bind, hend, if_neg Bool.false_ne_true,
            if_neg (by omega), hskip, List.append_assoc, List.singleton_append]
      · refine ⟨[], ?_, ?_⟩
        · rw [lineEnd, List.dropWhile_cons_of_neg (by rw [hend]; decide)]
          rfl
        · rw [skipLine, List.cons_append, peek_at, ok_bind, hend, if_pos rfl, List.append_nil]
          rfl

/-- What is written when the destination is full. -/
theorem delivered_full {dest : Bytes} {c : UInt8} (h : dest.length + 1 = destlen) (v : Bytes) :
    (((destlen - 1 : ℕ) : ℤ), (dest ++ [c]).set (destlen - 1) 0) =
      delivered destlen (some (dest ++ c :: v)) := by
  have hlast : destlen - 1 = dest.length := by omega
  rw [delivered, hlast, List.take_left' rfl, List.set_append, if_neg (lt_irrefl _), Nat.sub_self]
  rfl

/-- What is written at the end of a value. -/
theorem delivered_end {dest : Bytes} (h : dest.length < destlen) :
    (do let terminated ← put destlen dest 0; pure ((dest.length : ℤ), terminated)) =
      (.ok (delivered destlen (some dest)) : Except Fault (ℤ × Bytes)) := by
  rw [put_of_lt h, ok_bind, delivered, List.take_of_length_le (Nat.le_sub_one_of_lt h)]
  rfl

/-- **A value**, as much of it as there is room for. -/
theorem readValue_text {t : Bytes} (h0 : (0 : UInt8) ∉ t) (a z : Bytes) {n : ℕ}
    (hC : a.length + t.length < C) (hn : t.length < n) (esc : Bool) {dest : Bytes}
    (hdest : dest.length < destlen) :
    readValue C (a ++ (t ++ 0 :: z)) destlen n esc dest a.length =
      .ok (delivered destlen (some (dest ++ unescape esc t))) := by
  induction t generalizing a n esc dest with
  | nil =>
      obtain ⟨n, rfl⟩ := Nat.exists_eq_succ_of_ne_zero (Nat.ne_zero_of_lt hn)
      rw [readValue, List.nil_append, peek_at, ok_bind, ends_zero, if_pos rfl, delivered_end hdest,
        unescape, List.append_nil]
  | cons c t ih =>
      obtain ⟨n, rfl⟩ := Nat.exists_eq_succ_of_ne_zero (Nat.ne_zero_of_lt hn)
      obtain ⟨-, ht⟩ := not_mem_cons h0
      rw [List.length_cons] at hC hn
      have hnext : ∀ (esc : Bool) {dest : Bytes}, dest.length < destlen →
          readValue C (a ++ c :: (t ++ 0 :: z)) destlen n esc dest (a.length + 1) =
            .ok (delivered destlen (some (dest ++ unescape esc t))) := by
        intro esc dest hdest
        have hrest := ih ht (a ++ [c]) (by rw [List.length_append, List.length_singleton]; omega)
          (Nat.lt_of_succ_lt_succ hn) esc hdest
        rwa [List.append_assoc, List.singleton_append, List.length_append,
          List.length_singleton] at hrest
      have hmore : a.length + 1 ≠ C := by omega
      -- a byte is written, and the destination is full or the loop goes on
      have hwrite : ∀ x : UInt8, (do
          let dest ← put destlen dest x
          if dest.length = destlen then
            pure (((destlen - 1 : ℕ) : ℤ), dest.set (destlen - 1) 0)
          else if a.length + 1 = C then absent destlen dest
          else readValue C (a ++ c :: (t ++ 0 :: z)) destlen n false dest (a.length + 1)) =
            .ok (delivered destlen (some (dest ++ x :: unescape false t))) := by
        intro x
        rw [put_of_lt hdest, ok_bind, List.length_append, List.length_singleton, if_neg hmore]
        by_cases hfull : dest.length + 1 = destlen
        · rw [if_pos hfull, delivered_full hfull]
          rfl
        · have hroom : (dest ++ [x]).length < destlen := by
            rw [List.length_append, List.length_singleton]
            omega
          rw [if_neg hfull, hnext false hroom, List.append_assoc, List.singleton_append]
      rw [readValue, List.cons_append, peek_at, ok_bind, unescape]
      by_cases hend : ends c = true
      · rw [if_pos hend, if_pos hend, delivered_end hdest, List.append_nil]
      rw [if_neg hend, if_neg hend]
      by_cases hesc : esc = true
      · rw [if_pos hesc, if_pos hesc]
        exact hwrite (unescaped c)
      rw [if_neg hesc, if_neg hesc]
      by_cases hslash : c = backslash
      · rw [if_pos hslash, if_pos hslash, if_neg hmore]
        exact hnext true hdest
      · rw [if_neg hslash, if_neg hslash]
        exact hwrite c

theorem atValue_text {t : Bytes} (h0 : (0 : UInt8) ∉ t) (a z k : Bytes) :
    atValue (a ++ (t ++ 0 :: z)) k a.length = .ok (decide (k = [] ∧ t.head? = some equals)) := by
  by_cases hk : k = []
  · rw [atValue, if_pos hk]
    cases t with
    | nil =>
        rw [List.nil_append, peek_at, ok_bind, decide_eq_false fun h => by cases h.2]
        rfl
    | cons c t =>
        rw [List.cons_append, peek_at, ok_bind]
        by_cases hc : c = equals
        · rw [decide_eq_true ⟨hk, congrArg some hc⟩, hc]
          rfl
        · rw [decide_eq_false fun h => hc (Option.some.inj h.2), beq_false_of_ne hc]
          rfl
  · rw [atValue, if_neg hk, decide_eq_false fun h => hk h.1]
    rfl

theorem absent_nil (h : 0 < destlen) : absent destlen [] = .ok (delivered destlen none) := if_pos h

/-- **The lines** of a text. -/
theorem getFrom_text {t : Bytes} (h0 : (0 : UInt8) ∉ t) (a z : Bytes) {n : ℕ}
    (hC : a.length + t.length < C) (hn : t.length < n) (hdest : 0 < destlen) :
    getFrom C (a ++ (t ++ 0 :: z)) key destlen n a.length =
      .ok (delivered destlen (lookup key n t)) := by
  -- on the turns of the loop: the bytes before the line that is looked at go to `a`
  induction n generalizing a t with
  | zero => exact absurd hn (Nat.not_lt_zero _)
  | succ n ih =>
      rcases t with - | ⟨c, t⟩
      · rw [getFrom, List.nil_append, peek_at, ok_bind, if_pos rfl, absent_nil hdest]
        rfl
      · -- the scan of the key stops in the line, before the null byte
        obtain ⟨s, hs, hmatch⟩ := matchKey_text h0 a z hC key
        set m := stripKey key (c :: t) with hm
        have hlength : s.length + m.2.length = t.length + 1 := by
          rw [← List.length_append, ← hs, List.length_cons]
        have h0m : (0 : UInt8) ∉ m.2 := fun h => h0 (hs ▸ List.mem_append_right s h)
        rw [List.length_cons] at hC hn
        have hmem : a ++ (c :: t ++ 0 :: z) = a ++ s ++ (m.2 ++ 0 :: z) := by
          rw [hs, List.append_assoc, List.append_assoc]
        rw [hmem] at hmatch ⊢
        have hfirst : peek (a ++ s ++ (m.2 ++ 0 :: z)) a.length = .ok c := by
          rw [← hmem, List.cons_append, peek_at]
        have hlookup : lookup key (n + 1) (c :: t) =
            if m.1 = [] ∧ m.2.head? = some equals then some (unescape false m.2.tail)
            else lookup key n (lineEnd m.2).tail := rfl
        rw [getFrom, hfirst, ok_bind, if_neg (not_mem_cons h0).1, hmatch, ok_bind, hlookup]
        dsimp only
        rw [atValue_text h0m, ok_bind]
        by_cases hfound : m.1 = [] ∧ m.2.head? = some equals
        · -- the value follows
          obtain ⟨v, hv⟩ : ∃ v, m.2 = equals :: v := List.head?_eq_some_iff.mp hfound.2
          rw [hv, List.length_cons] at hlength
          have hempty : ([] : Bytes).length < destlen := hdest
          have hvalue := readValue_text (not_mem_cons (hv ▸ h0m)).2 (a ++ s ++ [equals]) z
            (show (a ++ s ++ [equals]).length + v.length < C by
              simp only [List.length_append, List.length_singleton]
              omega)
            (show v.length < C by omega) false hempty
          rw [decide_eq_true hfound, if_pos rfl, if_pos hfound, hv]
          rwa [List.append_assoc, List.singleton_append, List.length_append,
            List.length_singleton] at hvalue
        · -- another key: the rest of the line is passed over
          rw [decide_eq_false hfound, if_neg Bool.false_ne_true, if_neg hfound]
          obtain ⟨s', hs', hskip⟩ := skipLine_text (C := C) h0m (a ++ s) z (n := C)
            (by rw [List.length_append]; omega) (by omega)
          rw [hskip, ok_bind]
          dsimp only
          have hmem' : a ++ s ++ (m.2 ++ 0 :: z) = a ++ s ++ s' ++ (lineEnd m.2 ++ 0 :: z) := by
            rw [List.append_assoc (a ++ s) s', ← List.append_assoc s', ← hs']
          rw [hmem']
          have hlength' : s'.length + (lineEnd m.2).length = m.2.length := by
            rw [← List.length_append, ← hs']
          have h0e : (0 : UInt8) ∉ lineEnd m.2 := fun h => h0m (hs' ▸ List.mem_append_right s' h)
          rcases hline : lineEnd m.2 with - | ⟨c', t'⟩
          · rw [List.nil_append, peek_at, ok_bind, if_pos rfl, absent_nil hdest]
            cases n with
            | zero => rfl
            | succ n => rfl
          · rw [hline] at h0e hlength'
            rw [List.length_cons] at hlength'
            have hnext := ih (not_mem_cons h0e).2 (a ++ s ++ s' ++ [c'])
              (by simp only [List.length_append, List.length_singleton]; omega) (by omega)
            have hplace : (a ++ s ++ s' ++ [c']).length = (a ++ s ++ s').length + 1 :=
              List.length_append
            rw [List.append_assoc, List.singleton_append, hplace] at hnext
            rw [List.cons_append, peek_at, ok_bind, if_neg (not_mem_cons h0e).1, if_neg, hnext]
            · rfl
            · simp only [List.length_append]
              omega

/-- **What a search finds**, and that it reads nothing after the null and writes nothing outside of
the destination. -/
theorem get_eq {t : Bytes} (h0 : (0 : UInt8) ∉ t) (hC : t.length < C) (z : Bytes) :
    get C (t ++ 0 :: z) key destlen =
      .ok (if destlen = 0 then (-1, []) else delivered destlen (lookup key C t)) := by
  by_cases hdest : destlen = 0
  · rw [get, if_pos hdest, if_pos hdest]
  · rw [get, if_neg hdest, if_neg hdest]
    exact getFrom_text h0 [] z ((Nat.zero_add _).trans_lt hC) hC (Nat.pos_of_ne_zero hdest)

end Text

end Dictionary

end ZGalaxy
