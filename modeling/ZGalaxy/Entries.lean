/-
ZGalaxy/Entries.lean

Adding to a dictionary.

An entry is written after the text, byte after byte; when the last byte of the buffer has been
written the null is put back where the text ended, and the addition has failed.  What stays behind
that null is no part of the text.

The text of a dictionary that was filled from the beginning is one line for each entry (`content`),
and what is found for a key is the value of its first entry (`lookup_content`).  A negative integer
is written without its sign: the sign is put before the digits, but the digits alone are handed on.

Main result: `firstKeyWins_iff`, that the first value that was added for a key is what is found
exactly when no key has a negative integer for its first value.
-/
import Mathlib.Data.List.TakeWhile
import ZGalaxy.Address
import ZGalaxy.Dictionary
import ZGalaxy.Numerals

namespace ZGalaxy

open ByteList

namespace Dictionary

/-! ### Adding -/

/-- Why an entry is not written to its end: the buffer is full, and left as it is here, or a write
would be outside of it. -/
inductive Stop
  | full (d : Bytes)
  | outside
deriving DecidableEq

/-- `_d[j] = c`. -/
def store (d : Bytes) (j : ℕ) (c : UInt8) : Except Stop Bytes :=
  if j < d.length then .ok (d.set j c) else .error .outside

/-- `_d[j++] = c`, and the text ends at `i` again if the buffer is full. -/
def putAt (C i : ℕ) (s : Bytes × ℕ) (c : UInt8) : Except Stop (Bytes × ℕ) := do
  let d ← store s.1 s.2 c
  if s.2 + 1 = C then do
    let d ← store d i 0
    .error (.full d)
  else pure (d, s.2 + 1)

/-- One byte after another. -/
def putAll (C i : ℕ) : Bytes → Bytes × ℕ → Except Stop (Bytes × ℕ)
  | [], s => pure s
  | c :: cs, s => do
      let s ← putAt C i s c
      putAll C i cs s

/-- What `add` returns, with the buffer. -/
def returned : Except Stop Bytes → Except Fault (Bytes × Bool)
  | .ok d => .ok (d, true)
  | .error (.full d) => .ok (d, false)
  | .error .outside => .error .write

/-- `Dictionary::add`, of the bytes of a value. -/
def addBytes (C : ℕ) (d key value : Bytes) : Except Fault (Bytes × Bool) :=
  let i := (text d).length
  if i < C then
    returned do
      let s ← if 0 < i then putAt C i (d, i) lineFeed else pure (d, i)
      let s ← putAll C i key s
      let s ← putAt C i s equals
      let s ← putAll C i (value.flatMap escape) s
      store s.1 s.2 0
  else .ok (d, false)

/-- What can be added. -/
inductive Value
  | text (s : Bytes)
  | binary (b : Bytes)
  | unsigned (v : UInt64)
  | signed (v : Int64)
  | boolean (v : Bool)
  | address (a : Address)
  | dictionary (d : Bytes)
deriving DecidableEq

/-- `Utils::hex`, with sixteen digits. -/
def hexBytes (v : ℕ) : Bytes := (CString.hexDigits 16 v).map fun c => UInt8.ofNat c.toNat

namespace Value

/-- What is handed on: of a C string and of another dictionary, the bytes before the first null, and
of a negative integer, the digits. -/
def given : Value → Bytes
  | text s => Dictionary.text s
  | binary b => b
  | unsigned v => hexBytes v.toNat
  | signed v => if 0 ≤ v then hexBytes v.toUInt64.toNat else hexBytes (v * -1).toUInt64.toNat
  | boolean v => if v then [49] else [48]
  | address a => hexBytes a.toNat
  | dictionary d => Dictionary.text d

/-- The bytes of a value: of a negative integer, with the sign. -/
def bytes : Value → Bytes
  | signed v =>
      if 0 ≤ v then hexBytes v.toUInt64.toNat else 45 :: hexBytes (v * -1).toUInt64.toNat
  | v => v.given

/-- A negative integer. -/
def Negative (value : Value) : Prop := ∃ v : Int64, v < 0 ∧ value = signed v

theorem given_eq_bytes_iff (value : Value) : value.given = value.bytes ↔ ¬value.Negative := by
  cases value with
  | signed v =>
      by_cases hv : 0 ≤ v
      · refine iff_of_true ?_ ?_
        · rw [given, bytes, if_pos hv, if_pos hv]
        · rintro ⟨v', hneg, hsame⟩
          obtain rfl := signed.inj hsame
          exact absurd hneg (Int64.not_lt.mpr hv)
      · refine iff_of_false ?_ (not_not.mpr ⟨v, Int64.not_le.mp hv, rfl⟩)
        rw [given, bytes, if_neg hv, if_neg hv]
        intro h
        exact absurd (congrArg List.length h) (Nat.ne_of_lt (Nat.lt_succ_self _))
  | _ => exact iff_of_true rfl fun ⟨_, _, h⟩ => by cases h

end Value

/-- A key without nulls, ends of lines, equals signs and backslashes. -/
def Legal (k : Bytes) : Prop := ∀ c ∈ k, ends c = false ∧ c ≠ equals ∧ c ≠ backslash

/-- A call of `add`. -/
structure Call where
  key : Bytes
  value : Value
  legal : Legal key

/-- `Dictionary::add`. -/
def add (C : ℕ) (d : Bytes) (call : Call) : Except Fault (Bytes × Bool) :=
  addBytes C d call.key call.value.given

/-- Calls in a row: the buffer, and the calls that returned true. -/
def run (C : ℕ) : Bytes → List Call → Except Fault (Bytes × List Call)
  | d, [] => pure (d, [])
  | d, call :: calls => do
      let r ← add C d call
      let s ← run C r.1 calls
      pure (s.1, if r.2 then call :: s.2 else s.2)

/-- A dictionary without entries. -/
def empty (C : ℕ) : Bytes := List.replicate C 0

/-! ### Loading -/

/-- `*s`, of a string that has been read to its end, or not. -/
def current (s : Option Bytes) : UInt8 := (s.getD []).headD 0

/-- The loop of `load`. -/
def loadFrom : ℕ → Option Bytes → Bytes × Option Bytes
  | 0, s => ([], s)
  | n + 1, s =>
      let r := loadFrom n (if current s = 0 then none else s.map List.tail)
      (current s :: r.1, r.2)

/-- `Dictionary::load`, of a string without its null: the buffer, and what is returned. -/
def load (C : ℕ) (s : Bytes) : Bytes × Bool :=
  let r := loadFrom C (some s)
  (r.1.set (C - 1) 0, r.2.isNone)

/-! ### Buffers -/

section Buffers

variable {C : ℕ} {d : Bytes}

theorem text_append {t : Bytes} (h0 : (0 : UInt8) ∉ t) (z : Bytes) : text (t ++ 0 :: z) = t := by
  have ht : ∀ c ∈ t, (c != 0) = true := fun c hc => bne_iff_ne.mpr fun h => h0 (h ▸ hc)
  rw [text, List.takeWhile_append_of_pos ht, List.takeWhile_cons_of_neg (by decide),
    List.append_nil]

theorem zero_not_mem_text (d : Bytes) : (0 : UInt8) ∉ text d := by
  intro h
  have hne := List.mem_takeWhile_imp h
  exact absurd hne (by decide)

/-- A buffer with a null is its text, the null, and what stays behind it. -/
theorem Terminated.split (h : Terminated C d) :
    (text d).length < C ∧ ∃ z, d = text d ++ 0 :: z := by
  have hsplit : text d ++ d.dropWhile (fun c => c != 0) = d := List.takeWhile_append_dropWhile
  rcases hrest : d.dropWhile fun c => c != 0 with - | ⟨c, z⟩
  · rw [hrest, List.append_nil] at hsplit
    exact absurd (hsplit.symm ▸ h.null) (zero_not_mem_text d)
  · have hc : c = 0 := by
      have hhead := List.head?_dropWhile_not (fun c : UInt8 => c != 0) d
      rw [hrest] at hhead
      simpa using hhead
    rw [hrest, hc] at hsplit
    refine ⟨?_, z, hsplit.symm⟩
    have hlength := congrArg List.length hsplit
    rw [h.size, List.length_append, List.length_cons] at hlength
    omega

theorem terminated_append {t z : Bytes} (h : (t ++ 0 :: z).length = C) :
    Terminated C (t ++ 0 :: z) :=
  ⟨h, List.mem_append_right t List.mem_cons_self⟩

theorem length_loadFrom (n : ℕ) (s : Option Bytes) : (loadFrom n s).1.length = n := by
  induction n generalizing s with
  | zero => rfl
  | succ n ih => exact congrArg (· + 1) (ih _)

/-- **A string that is loaded** leaves a buffer with a null, however long it is. -/
theorem terminated_load (hC : 0 < C) (s : Bytes) : Terminated C (load C s).1 := by
  have hlength := length_loadFrom C (some s)
  have hlast : C - 1 < ((loadFrom C (some s)).1.set (C - 1) 0).length := by
    rw [List.length_set, hlength]
    exact Nat.sub_lt hC Nat.one_pos
  exact ⟨List.length_set.trans hlength,
    List.mem_iff_getElem.mpr ⟨C - 1, hlast, List.getElem_set_self _⟩⟩

/-- **A search** in a buffer with a null depends on its text, and reads nothing behind it. -/
theorem Terminated.get_eq (h : Terminated C d) (key : Bytes) (destlen : ℕ) :
    get C d key destlen =
        .ok (if destlen = 0 then (-1, []) else delivered destlen (lookup key C (text d))) ∧
      get C (d.take ((text d).length + 1)) key destlen = get C d key destlen := by
  obtain ⟨hlt, z, hd⟩ := h.split
  have h0 := zero_not_mem_text d
  have htake : d.take ((text d).length + 1) = text d ++ 0 :: [] := by
    conv_lhs => rw [hd]
    rw [text_append h0, List.take_length_add_append]
    rfl
  have hget : get C (text d ++ 0 :: z) key destlen = _ := Dictionary.get_eq h0 hlt z
  rw [← hd] at hget
  exact ⟨hget, by rw [htake, hget, Dictionary.get_eq h0 hlt []]⟩

end Buffers

/-! ### Writing an entry -/

section Writing

variable {C : ℕ}

/-- A text with one entry more. -/
def appended (t key value : Bytes) : Bytes :=
  t ++ ((if t = [] then [] else [lineFeed]) ++ (key ++ (equals :: value.flatMap escape)))

theorem store_at (a : Bytes) (x : UInt8) (b : Bytes) (c : UInt8) :
    store (a ++ x :: b) a.length c = .ok (a ++ c :: b) := by
  have hlt : a.length < (a ++ x :: b).length := by
    rw [List.length_append, List.length_cons]
    omega
  rw [store, if_pos hlt, List.set_append, if_neg (lt_irrefl _), Nat.sub_self]
  rfl

/-- **Bytes are written** behind the text and what is written already, or the null is put back. -/
theorem putAll_eq (t : Bytes) (w u : Bytes) {rest : Bytes} (hrest : rest ≠ [])
    (hC : t.length + u.length + rest.length = C) :
    (w.length < rest.length ∧ putAll C t.length w (t ++ u ++ rest, t.length + u.length) =
        .ok (t ++ (u ++ w) ++ rest.drop w.length, t.length + (u ++ w).length)) ∨
      (rest.length ≤ w.length ∧ ∃ z, (t ++ 0 :: z).length = C ∧
        putAll C t.length w (t ++ u ++ rest, t.length + u.length) =
          .error (.full (t ++ 0 :: z))) := by
  -- on what is still to be written: what is written already goes to `u`
  induction w generalizing u rest with
  | nil =>
      refine Or.inl ⟨List.length_pos_of_ne_nil hrest, ?_⟩
      rw [List.append_nil]
      rfl
  | cons c w ih =>
      obtain ⟨x, rest, rfl⟩ := List.exists_cons_of_ne_nil hrest
      rw [List.length_cons] at hC
      have hplace : (t ++ u).length = t.length + u.length := List.length_append
      have hstore : store (t ++ u ++ x :: rest) (t.length + u.length) c =
          .ok (t ++ u ++ c :: rest) := by
        rw [← hplace]
        exact store_at (t ++ u) x rest c
      by_cases hfull : rest = []
      · -- this was the last byte of the buffer
        subst hfull
        obtain ⟨y, z, hyz⟩ : ∃ y z, u ++ [c] = y :: z :=
          List.exists_cons_of_ne_nil (List.append_ne_nil_of_right_ne_nil u (List.cons_ne_nil c []))
        have hback : store (t ++ u ++ [c]) t.length 0 = .ok (t ++ 0 :: z) := by
          rw [List.append_assoc, hyz, store_at]
        have hz := congrArg List.length hyz
        rw [List.length_append, List.length_singleton, List.length_cons] at hz
        refine Or.inr ⟨Nat.succ_le_succ (Nat.zero_le _), z, ?_, ?_⟩
        · rw [List.length_append, List.length_cons]
          rw [List.length_nil] at hC
          omega
        · have hput : putAt C t.length (t ++ u ++ [x], t.length + u.length) c =
              .error (.full (t ++ 0 :: z)) := by
            rw [putAt, hstore]
            show (if t.length + u.length + 1 = C then _ else _) = _
            rw [List.length_nil, Nat.zero_add] at hC
            rw [if_pos hC]
            show (do let d ← store (t ++ u ++ [c]) t.length 0; .error (.full d)) = _
            rw [hback]
            rfl
          rw [putAll, hput]
          rfl
      · -- there is room for the next byte
        have hput : putAt C t.length (t ++ u ++ x :: rest, t.length + u.length) c =
            .ok (t ++ (u ++ [c]) ++ rest, t.length + (u ++ [c]).length) := by
          have hpos := List.length_pos_of_ne_nil hfull
          rw [putAt, hstore]
          show (if t.length + u.length + 1 = C then _ else _) = _
          rw [if_neg (by omega), ← List.append_assoc t, List.append_assoc (t ++ u) [c],
            List.length_append, List.length_singleton]
          rfl
        have hstep : putAll C t.length (c :: w) (t ++ u ++ x :: rest, t.length + u.length) =
            putAll C t.length w (t ++ (u ++ [c]) ++ rest, t.length + (u ++ [c]).length) := by
          rw [putAll, hput]
          rfl
        have hsame : u ++ [c] ++ w = u ++ c :: w := by
          rw [List.append_assoc, List.singleton_append]
        have hrest' := ih (u ++ [c]) hfull
          (by rw [List.length_append, List.length_singleton]; omega)
        rw [hsame] at hrest'
        rw [hstep, List.length_cons, List.length_cons, List.drop_succ_cons]
        rcases hrest' with ⟨hlt, hok⟩ | ⟨hle, z, hz, herror⟩
        · exact Or.inl ⟨Nat.succ_lt_succ hlt, hok⟩
        · exact Or.inr ⟨Nat.succ_le_succ hle, z, hz, herror⟩

theorem putAll_append (i : ℕ) (w w' : Bytes) (s : Bytes × ℕ) :
    putAll C i (w ++ w') s = putAll C i w s >>= putAll C i w' := by
  induction w generalizing s with
  | nil => rfl
  | cons c w ih =>
      rw [List.cons_append, putAll, putAll]
      rcases putAt C i s c with e | s'
      · rfl
      · exact ih s'

theorem putAll_singleton (i : ℕ) (c : UInt8) (s : Bytes × ℕ) :
    putAll C i [c] s = putAt C i s c := by
  rw [putAll]
  rcases putAt C i s c with e | s'
  · rfl
  · rfl

/-- **An entry is added** behind the text if there is room for it and for a null; else the text is
what it was. -/
theorem addBytes_eq {t z : Bytes} (h0 : (0 : UInt8) ∉ t) (hC : (t ++ 0 :: z).length = C)
    (key value : Bytes) :
    (appended t key value).length < C ∧ (∃ z', (appended t key value ++ 0 :: z').length = C ∧
        addBytes C (t ++ 0 :: z) key value = .ok (appended t key value ++ 0 :: z', true)) ∨
      C ≤ (appended t key value).length ∧ ∃ z', (t ++ 0 :: z').length = C ∧
        addBytes C (t ++ 0 :: z) key value = .ok (t ++ 0 :: z', false) := by
  set w := (if t = [] then [] else [lineFeed]) ++ (key ++ (equals :: value.flatMap escape)) with hw
  have happended : appended t key value = t ++ w := rfl
  have hlength : t.length + (0 :: z).length = C := List.length_append.symm.trans hC
  have hlt : t.length < C := by
    rw [List.length_cons] at hlength
    omega
  have hadd : addBytes C (t ++ 0 :: z) key value = returned
      (putAll C t.length w (t ++ 0 :: z, t.length) >>= fun s => store s.1 s.2 0) := by
    have hequals : equals :: value.flatMap escape = [equals] ++ value.flatMap escape := rfl
    have htext := text_append h0 z
    simp only [addBytes, htext, if_pos hlt, hw, hequals, putAll_append, putAll_singleton,
      bind_assoc]
    by_cases ht : t = []
    · rw [if_pos ht, if_neg (by rw [ht]; exact lt_irrefl 0)]
      rfl
    · rw [if_neg ht, if_pos (List.length_pos_of_ne_nil ht), putAll_singleton]
  have hput := putAll_eq t w [] (List.cons_ne_nil 0 z) hlength
  rw [List.append_nil, List.length_nil, Nat.add_zero, List.nil_append] at hput
  rw [happended, hadd, List.length_append]
  rcases hput with ⟨hroom, hok⟩ | ⟨hfull, z', hz', herror⟩
  · obtain ⟨x, z', hx⟩ : ∃ x z', (0 :: z).drop w.length = x :: z' :=
      List.exists_cons_of_ne_nil (List.drop_eq_nil_iff.not.mpr (not_le.mpr hroom))
    have hrest := congrArg List.length hx
    have hcons : (x :: z').length = z'.length + 1 := rfl
    rw [List.length_drop, hcons] at hrest
    refine Or.inl ⟨by omega, z', ?_, ?_⟩
    · rw [List.length_append, List.length_append]
      show t.length + w.length + (z'.length + 1) = C
      omega
    · rw [hok, hx]
      show returned (store (t ++ w ++ x :: z') (t.length + w.length) 0) = _
      rw [← List.length_append, store_at]
      rfl
  · refine Or.inr ⟨by omega, z', hz', ?_⟩
    rw [herror]
    rfl

end Writing

/-! ### Lines -/

section Lines

/-- The line of a key and a value. -/
def line (e : Bytes × Bytes) : Bytes := e.1 ++ (equals :: e.2.flatMap escape)

/-- The text of entries. -/
def content : List (Bytes × Bytes) → Bytes
  | [] => []
  | e :: es => line e ++ es.flatMap fun e => lineFeed :: line e

theorem content_append (es : List (Bytes × Bytes)) (e : Bytes × Bytes) :
    content (es ++ [e]) = appended (content es) e.1 e.2 := by
  cases es with
  | nil => exact List.append_nil _
  | cons e' es =>
      have hne : content (e' :: es) ≠ [] := by
        intro h
        have hline := (List.append_eq_nil_iff.mp h).1
        exact List.cons_ne_nil _ _ (List.append_eq_nil_iff.mp hline).2
      rw [appended, if_neg hne, List.cons_append, content, List.flatMap_append,
        List.flatMap_singleton, ← List.append_assoc]
      rfl

/-- No byte of an escaped value ends a line. -/
theorem of_mem_escape {c x : UInt8} (h : x ∈ escape c) : ends x = false := by
  have hpair : ∀ y, ends y = false → x ∈ [backslash, y] → ends x = false := by
    intro y hy hx
    rcases List.mem_cons.mp hx with rfl | hx
    · rfl
    · obtain rfl := List.mem_singleton.mp hx
      exact hy
  rw [escape] at h
  split_ifs at h with h0 hcr hlf hslash hequals
  · exact hpair 48 rfl h
  · exact hpair 114 rfl h
  · exact hpair 110 rfl h
  · exact hpair backslash rfl h
  · exact hpair 101 rfl h
  · obtain rfl := List.mem_singleton.mp h
    simp only [ends, beq_false_of_ne h0, beq_false_of_ne hcr, Bool.or_false]
    exact beq_false_of_ne hlf

theorem ends_of_mem_line {e : Bytes × Bytes} (h : Legal e.1) {x : UInt8} (hx : x ∈ line e) :
    ends x = false := by
  rcases List.mem_append.mp hx with hx | hx
  · exact (h x hx).1
  rcases List.mem_cons.mp hx with rfl | hx
  · rfl
  · obtain ⟨c, -, hc⟩ := List.mem_flatMap.mp hx
    exact of_mem_escape hc

theorem zero_not_mem_content {es : List (Bytes × Bytes)} (h : ∀ e ∈ es, Legal e.1) :
    (0 : UInt8) ∉ content es := by
  have hline : ∀ e ∈ es, (0 : UInt8) ∉ line e := by
    intro e he h0
    exact Bool.noConfusion (ends_zero.symm.trans (ends_of_mem_line (h e he) h0))
  cases es with
  | nil => exact List.not_mem_nil
  | cons e es =>
      intro h0
      rcases List.mem_append.mp h0 with h0 | h0
      · exact hline e List.mem_cons_self h0
      · obtain ⟨e', he', h0⟩ := List.mem_flatMap.mp h0
        rcases List.mem_cons.mp h0 with h0 | h0
        · exact absurd h0 (by decide)
        · exact hline e' (List.mem_cons_of_mem e he') h0

/-- What follows a line. -/
def Follows (r : Bytes) : Prop := r = [] ∨ ∃ r', r = lineFeed :: r'

theorem unescape_follows {r : Bytes} (h : Follows r) (esc : Bool) : unescape esc r = [] := by
  rcases h with rfl | ⟨r', rfl⟩
  · rfl
  · exact if_pos rfl

theorem lineEnd_follows {r : Bytes} (h : Follows r) : lineEnd r = r := by
  rcases h with rfl | ⟨r', rfl⟩
  · rfl
  · exact List.dropWhile_cons_of_neg (by decide)

/-- **An escaped byte** is read as it was. -/
theorem unescape_escape (c : UInt8) (t : Bytes) :
    unescape false (escape c ++ t) = c :: unescape false t := by
  rw [escape]
  split_ifs with h0 hcr hlf hslash hequals
  · rw [h0]
    rfl
  · rw [hcr]
    rfl
  · rw [hlf]
    rfl
  · rw [hslash]
    rfl
  · rw [hequals]
    rfl
  · have hend : ends c = false := of_mem_escape (c := c) (by
      rw [escape, if_neg h0, if_neg hcr, if_neg hlf, if_neg hslash, if_neg hequals]
      exact List.mem_cons_self)
    rw [List.singleton_append, unescape, hend, if_neg Bool.false_ne_true, if_neg Bool.false_ne_true,
      if_neg hslash]

theorem unescape_value (v : Bytes) {r : Bytes} (h : Follows r) :
    unescape false (v.flatMap escape ++ r) = v := by
  induction v with
  | nil => exact unescape_follows h false
  | cons c v ih => rw [List.flatMap_cons, List.append_assoc, unescape_escape, ih]

theorem stripKey_append (k t : Bytes) : stripKey k (k ++ t) = ([], t) := by
  induction k with
  | nil => cases t <;> rfl
  | cons x k ih => exact (if_neg (not_not.mpr rfl)).trans ih

/-- A key and a text begin with what is stripped of both. -/
theorem stripKey_split (k t : Bytes) :
    ∃ s, k = s ++ (stripKey k t).1 ∧ t = s ++ (stripKey k t).2 := by
  induction k generalizing t with
  | nil => cases t <;> exact ⟨[], rfl, rfl⟩
  | cons x k ih =>
      cases t with
      | nil => exact ⟨[], rfl, rfl⟩
      | cons c t =>
          by_cases hc : c = x
          · have hstrip : stripKey (x :: k) (c :: t) = stripKey k t := if_neg (not_not.mpr hc)
            obtain ⟨s, hk, ht⟩ := ih t
            rw [hstrip]
            exact ⟨x :: s, congrArg (x :: ·) hk, by rw [hc]; exact congrArg (x :: ·) ht⟩
          · have hstrip : stripKey (x :: k) (c :: t) = (x :: k, c :: t) := if_pos hc
            rw [hstrip]
            exact ⟨[], rfl, rfl⟩

/-- A key ends at the first equals sign. -/
theorem key_unique {k k' v v' : Bytes} (hk : Legal k) (hk' : Legal k')
    (h : k ++ equals :: v = k' ++ equals :: v') : k = k' := by
  have hkey : ∀ {k : Bytes}, Legal k → ∀ v,
      (k ++ equals :: v).takeWhile (fun c => c != equals) = k := by
    intro k hk v
    have hne : ∀ c ∈ k, (c != equals) = true := fun c hc => bne_iff_ne.mpr (hk c hc).2.1
    rw [List.takeWhile_append_of_pos hne, List.takeWhile_cons_of_neg (by decide), List.append_nil]
  rw [← hkey hk v, h, hkey hk' v']

/-- **One line**: the value is found in it, or looked for in what follows it. -/
theorem lookup_line {k : Bytes} (hk : Legal k) {e : Bytes × Bytes} (he : Legal e.1) {r : Bytes}
    (hr : Follows r) (n : ℕ) :
    lookup k (n + 1) (line e ++ r) = if e.1 = k then some e.2 else lookup k n r.tail := by
  have hline : line e ++ r = e.1 ++ (equals :: (e.2.flatMap escape ++ r)) := by
    rw [line, List.append_assoc]
    rfl
  obtain ⟨c, t, hct⟩ : ∃ c t, line e ++ r = c :: t := by
    rw [hline]
    exact List.exists_cons_of_ne_nil
      (List.append_ne_nil_of_right_ne_nil _ (List.cons_ne_nil _ _))
  have hlookup : lookup k (n + 1) (line e ++ r) =
      if (stripKey k (line e ++ r)).1 = [] ∧ (stripKey k (line e ++ r)).2.head? = some equals then
        some (unescape false (stripKey k (line e ++ r)).2.tail)
      else lookup k n (lineEnd (stripKey k (line e ++ r)).2).tail := by
    rw [hct]
    rfl
  rw [hlookup]
  by_cases hkey : e.1 = k
  · have hstrip : stripKey k (line e ++ r) = ([], equals :: (e.2.flatMap escape ++ r)) := by
      rw [hline, hkey, stripKey_append]
    rw [hstrip, if_pos ⟨rfl, rfl⟩, if_pos hkey]
    exact congrArg some (unescape_value e.2 hr)
  · obtain ⟨s, hks, hts⟩ := stripKey_split k (line e ++ r)
    set m := stripKey k (line e ++ r)
    rw [if_neg hkey, if_neg]
    · -- the bytes that agree with the key do not end the line
      have hs : ∀ c ∈ s, (!ends c) = true := fun c hc => by
        rw [(hk c (hks ▸ List.mem_append_left m.1 hc)).1]
        rfl
      have hl : ∀ c ∈ line e, (!ends c) = true := fun c hc => by
        rw [ends_of_mem_line he hc]
        rfl
      have hend : lineEnd m.2 = r := by
        have hsame : lineEnd (s ++ m.2) = lineEnd (line e ++ r) := by rw [← hts]
        rw [lineEnd, List.dropWhile_append_of_pos hs, lineEnd,
          List.dropWhile_append_of_pos hl] at hsame
        exact hsame.trans (lineEnd_follows hr)
      rw [hend]
    · rintro ⟨hnil, hhead⟩
      obtain ⟨v, hv⟩ := List.head?_eq_some_iff.mp hhead
      rw [hnil, List.append_nil] at hks
      rw [hline, ← hks, hv] at hts
      exact hkey (key_unique he hk hts)

/-- **The first entry** of a key is what is found for it. -/
theorem lookup_content {k : Bytes} (hk : Legal k) {es : List (Bytes × Bytes)}
    (h : ∀ e ∈ es, Legal e.1) {n : ℕ} (hn : es.length < n) :
    lookup k n (content es) = (es.find? fun e => e.1 = k).map Prod.snd := by
  induction es generalizing n with
  | nil =>
      obtain ⟨n, rfl⟩ := Nat.exists_eq_succ_of_ne_zero (Nat.ne_zero_of_lt hn)
      rfl
  | cons e es ih =>
      obtain ⟨n, rfl⟩ := Nat.exists_eq_succ_of_ne_zero (Nat.ne_zero_of_lt hn)
      have hes : ∀ e' ∈ es, Legal e'.1 := fun e' he' => h e' (List.mem_cons_of_mem e he')
      have hfollows : Follows (es.flatMap fun e => lineFeed :: line e) ∧
          (es.flatMap fun e => lineFeed :: line e).tail = content es := by
        cases es with
        | nil => exact ⟨Or.inl rfl, rfl⟩
        | cons e' es => exact ⟨Or.inr ⟨_, rfl⟩, rfl⟩
      rw [content, lookup_line hk (h e List.mem_cons_self) hfollows.1, hfollows.2,
        ih hes (Nat.lt_of_succ_lt_succ hn), List.find?_cons]
      by_cases hkey : e.1 = k
      · rw [if_pos hkey, decide_eq_true hkey]
        rfl
      · rw [if_neg hkey, decide_eq_false hkey]

end Lines

/-! ### Runs -/

section Runs

variable {C : ℕ}

/-- What a call adds. -/
def Call.entry (call : Call) : Bytes × Bytes := (call.key, call.value.given)

/-- The calls that there is room for, after entries that are there. -/
def accepted (C : ℕ) : List (Bytes × Bytes) → List Call → List Call
  | _, [] => []
  | es, call :: calls =>
      if (content (es ++ [call.entry])).length < C then
        call :: accepted C (es ++ [call.entry]) calls
      else accepted C es calls

/-- **A run** leaves the entries of the calls that there was room for, which are those that returned
true. -/
theorem run_eq {es : List (Bytes × Bytes)} (hes : ∀ e ∈ es, Legal e.1) {z : Bytes}
    (hC : (content es ++ 0 :: z).length = C) (calls : List Call) :
    ∃ z', (content (es ++ (accepted C es calls).map Call.entry) ++ 0 :: z').length = C ∧
      run C (content es ++ 0 :: z) calls =
        .ok (content (es ++ (accepted C es calls).map Call.entry) ++ 0 :: z',
          accepted C es calls) := by
  -- on the calls: an entry that is accepted goes to those the text holds
  induction calls generalizing es z with
  | nil =>
      rw [accepted, List.map_nil, List.append_nil]
      exact ⟨z, hC, rfl⟩
  | cons call calls ih =>
      have hcontent : content (es ++ [call.entry]) =
          appended (content es) call.key call.value.given := content_append es call.entry
      rcases addBytes_eq (zero_not_mem_content hes) hC call.key call.value.given with
        ⟨hroom, z', hz', hadd⟩ | ⟨hfull, z', hz', hadd⟩
      · have hes' : ∀ e ∈ es ++ [call.entry], Legal e.1 := by
          intro e he
          rcases List.mem_append.mp he with he | he
          · exact hes e he
          · obtain rfl := List.mem_singleton.mp he
            exact call.legal
        rw [← hcontent] at hroom hz' hadd
        obtain ⟨z'', hz'', hrun⟩ := ih hes' hz'
        have haccepted : accepted C es (call :: calls) =
            call :: accepted C (es ++ [call.entry]) calls := if_pos hroom
        have hsame : es ++ (accepted C es (call :: calls)).map Call.entry =
            es ++ [call.entry] ++ (accepted C (es ++ [call.entry]) calls).map Call.entry := by
          rw [haccepted, List.map_cons, List.append_assoc, List.singleton_append]
        rw [hsame, haccepted]
        refine ⟨z'', hz'', ?_⟩
        rw [run, add, hadd, ok_bind, hrun]
        rfl
      · rw [← hcontent] at hfull
        obtain ⟨z'', hz'', hrun⟩ := ih hes hz'
        have haccepted : accepted C es (call :: calls) = accepted C es calls :=
          if_neg (not_lt.mpr hfull)
        rw [haccepted]
        refine ⟨z'', hz'', ?_⟩
        rw [run, add, hadd, ok_bind, hrun]
        rfl

theorem length_le_content (es : List (Bytes × Bytes)) : es.length ≤ (content es).length := by
  have hline : ∀ e, 1 ≤ (line e).length := by
    intro e
    rw [line, List.length_append, List.length_cons]
    omega
  cases es with
  | nil => exact Nat.zero_le _
  | cons e es =>
      have hrest : es.length ≤ (es.flatMap fun e => lineFeed :: line e).length := by
        induction es with
        | nil => exact Nat.zero_le _
        | cons e' es ih =>
            rw [List.flatMap_cons, List.length_append, List.length_cons, List.length_cons]
            omega
      rw [content, List.length_append, List.length_cons]
      exact (Nat.add_comm _ _).trans_le (Nat.add_le_add (hline e) hrest)

/-- What is found after a run. -/
theorem get_content {es : List (Bytes × Bytes)} (hes : ∀ e ∈ es, Legal e.1) {z : Bytes}
    (hC : (content es ++ 0 :: z).length = C) {k : Bytes} (hk : Legal k) {destlen : ℕ}
    (hdest : 0 < destlen) :
    get C (content es ++ 0 :: z) k destlen =
      .ok (delivered destlen ((es.find? fun e => e.1 = k).map Prod.snd)) := by
  have hlt : (content es).length < C := by
    rw [List.length_append, List.length_cons] at hC
    omega
  rw [get_eq (zero_not_mem_content hes) hlt z, if_neg hdest.ne',
    lookup_content hk hes ((length_le_content es).trans_lt hlt)]

/-- The dictionary `d` is what is left of calls, of which `added` returned true. -/
structure FirstKeyWins (C : ℕ) (calls : List Call) (d : Bytes) (added : List Call) : Prop where
  ran : run C (empty C) calls = .ok (d, added)
  /-- of a key, the bytes of the first value that was added are found, or nothing -/
  first : ∀ k destlen, Legal k → 0 < destlen → get C d k destlen = .ok (delivered destlen
    ((added.find? fun call => call.key = k).map fun call => call.value.bytes))
  /-- a call that returns false changes nothing that is found -/
  failed : ∀ key value d', addBytes C d key value = .ok (d', false) →
    ∀ k destlen, get C d' k destlen = get C d k destlen
  terminated : Terminated C d

/-- A search in a string that was loaded ends, reads nothing behind the first null, and writes no
more than there is room for. -/
def LoadsSafely (C : ℕ) : Prop :=
  ∀ s k destlen, ∃ r, get C ((load C s).1.take ((text (load C s).1).length + 1)) k destlen = .ok r ∧
    get C (load C s).1 k destlen = .ok r ∧ r.2.length ≤ destlen

/-- The dictionary does what it is for. -/
def Works (C : ℕ) (calls : List Call) : Prop :=
  (∃ d added, FirstKeyWins C calls d added) ∧ LoadsSafely C

/-- Of the calls that there is room for, the first for a key does not add a negative integer. -/
def SignsKept (C : ℕ) (calls : List Call) : Prop :=
  ∀ k call, (accepted C [] calls).find? (fun call => call.key = k) = some call →
    ¬call.value.Negative

theorem length_delivered {destlen : ℕ} (h : 0 < destlen) (v : Option Bytes) :
    (delivered destlen v).2.length ≤ destlen := by
  cases v with
  | none => exact h
  | some v =>
      rw [delivered, List.length_append, List.length_take, List.length_singleton]
      omega

theorem loadsSafely (hC : 0 < C) : LoadsSafely C := by
  intro s k destlen
  obtain ⟨hget, htake⟩ := (terminated_load hC s).get_eq k destlen
  refine ⟨_, htake.trans hget, hget, ?_⟩
  by_cases hdest : destlen = 0
  · rw [if_pos hdest]
    exact Nat.zero_le _
  · rw [if_neg hdest]
    exact length_delivered (Nat.pos_of_ne_zero hdest) _

/-- The dictionary after calls. -/
theorem run_empty (hC : 0 < C) (calls : List Call) :
    ∃ z, (content ((accepted C [] calls).map Call.entry) ++ 0 :: z).length = C ∧
      run C (empty C) calls = .ok (content ((accepted C [] calls).map Call.entry) ++ 0 :: z,
        accepted C [] calls) := by
  obtain ⟨n, rfl⟩ := Nat.exists_eq_succ_of_ne_zero hC.ne'
  have hlength : (content [] ++ 0 :: List.replicate n 0).length = n + 1 :=
    congrArg (· + 1) List.length_replicate
  exact run_eq (fun e he => absurd he List.not_mem_nil) hlength calls

theorem legal_entries (calls : List Call) : ∀ e ∈ calls.map Call.entry, Legal e.1 := by
  intro e he
  obtain ⟨call, -, rfl⟩ := List.mem_map.mp he
  exact call.legal

/-- The first entry of a key, among calls. -/
theorem find_entries (calls : List Call) (k : Bytes) :
    ((calls.map Call.entry).find? fun e => e.1 = k).map Prod.snd =
      (calls.find? fun call => call.key = k).map fun call => call.value.given := by
  rw [List.find?_map, Option.map_map]
  rfl

theorem delivered_inj {destlen : ℕ} {v v' : Bytes} (hv : v.length < destlen)
    (hv' : v'.length < destlen) (h : delivered destlen (some v) = delivered destlen (some v')) :
    v = v' := by
  have hsame := (Prod.mk.inj h).2
  rw [List.take_of_length_le (Nat.le_sub_one_of_lt hv),
    List.take_of_length_le (Nat.le_sub_one_of_lt hv')] at hsame
  exact List.append_cancel_right hsame

theorem works_of_signsKept (hC : 0 < C) {calls : List Call} (h : SignsKept C calls) :
    Works C calls := by
  obtain ⟨z, hz, hrun⟩ := run_empty hC calls
  have hlegal := legal_entries (accepted C [] calls)
  have hterminated := terminated_append hz
  refine ⟨⟨_, _, hrun, ?_, ?_, hterminated⟩, loadsSafely hC⟩
  · intro k destlen hk hdest
    rw [get_content hlegal hz hk hdest, find_entries]
    refine congrArg (fun v => Except.ok (delivered destlen v)) (Option.map_congr ?_)
    intro call hcall
    exact call.value.given_eq_bytes_iff.mpr (h k call hcall)
  · intro key value d' hadd k destlen
    rcases addBytes_eq (zero_not_mem_content hlegal) hz key value with
      ⟨-, z', -, hadded⟩ | ⟨-, z', hz', hadded⟩
    · rw [hadded] at hadd
      cases hadd
    · rw [hadded] at hadd
      obtain rfl := (Prod.mk.inj (Except.ok.inj hadd)).1
      have htext := zero_not_mem_content hlegal
      rw [((terminated_append hz').get_eq k destlen).1, (hterminated.get_eq k destlen).1,
        text_append htext, text_append htext]

theorem signsKept_of_works (hC : 0 < C) {calls : List Call} (h : Works C calls) :
    SignsKept C calls := by
  obtain ⟨⟨d, added, hran, hfirst, -, -⟩, -⟩ := h
  obtain ⟨z, hz, hrun⟩ := run_empty hC calls
  obtain ⟨rfl, rfl⟩ := Prod.mk.inj (Except.ok.inj (hran.symm.trans hrun))
  intro k call hfind
  have hfound := List.find?_some hfind
  have hkey : call.key = k := of_decide_eq_true hfound
  have hk : Legal k := hkey ▸ call.legal
  set destlen := max call.value.given.length call.value.bytes.length + 1 with hdestlen
  have hdest : 0 < destlen := Nat.succ_pos _
  have hget := hfirst k destlen hk hdest
  rw [get_content (legal_entries _) hz hk hdest, find_entries, hfind] at hget
  exact call.value.given_eq_bytes_iff.mp (delivered_inj (Nat.lt_succ_of_le (le_max_left _ _))
    (Nat.lt_succ_of_le (le_max_right _ _)) (Except.ok.inj hget))

/-- **The first key wins**: what is found for a key are the bytes of the first value that was added
for it, a call that fails changes nothing that is found, the buffer keeps a null, and a search in
any string that is loaded stays within it and within its destination, exactly if no key has a
negative integer for its first value. -/
theorem firstKeyWins_iff (C : ℕ) (hC : 0 < C) (calls : List Call) :
    Works C calls ↔ SignsKept C calls := ⟨signsKept_of_works hC, works_of_signsKept hC⟩

theorem legal_a : Legal [97] := by
  intro c hc
  obtain rfl := List.mem_singleton.mp hc
  decide

/-- A value for the key `a`. -/
def callA (value : Value) : Call := ⟨[97], value, legal_a⟩

/-- Two values for one key, both with an equals sign. -/
theorem firstKeyWins_twice : Works 32 [callA (.binary [61, 0]), callA (.text [61])] := by
  refine (firstKeyWins_iff 32 (by decide) _).mpr ?_
  intro k call hfind
  have hmem := List.mem_of_find?_eq_some hfind
  have haccepted : accepted 32 [] [callA (.binary [61, 0]), callA (.text [61])] =
      [callA (.binary [61, 0]), callA (.text [61])] := rfl
  rw [haccepted] at hmem
  rintro ⟨v, -, hv⟩
  rcases List.mem_cons.mp hmem with rfl | hmem
  · cases hv
  · obtain rfl := List.mem_singleton.mp hmem
    cases hv

/-- **The sign is lost** of a negative integer. -/
theorem firstKeyWins_sign_lost : ¬ ∀ (C : ℕ) (calls : List Call), 0 < C → Works C calls := by
  intro h
  have hkept := signsKept_of_works (by decide) (h 64 [callA (.signed (-5))] (by decide))
  exact hkept [97] (callA (.signed (-5))) rfl ⟨-5, by decide, rfl⟩

end Runs

end Dictionary

end ZGalaxy
