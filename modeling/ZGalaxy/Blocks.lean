/-
ZGalaxy/Blocks.lean

A byte string as blocks of one length and what is left over.

A function that takes its input in blocks, fed in pieces of any length, keeps back what does not
fill a block yet.  What it has processed is `blocks n b` of the input `b` so far, and what it keeps
back is `rest n b`.  The two lemmas such a function is verified with say what happens to both when
input is appended (`blocks_append`, `rest_append`): it is as if what was kept back had come before
the new piece.

A keystream is applied in pieces, too: to a front part and, from where that ends, to what follows
(`xorStream_append`).
-/
import ZGalaxy.Bytes

namespace ByteList

/-- The whole blocks of `n` bytes at the front of a byte string. -/
def blocks (n : ℕ) (b : Bytes) : List Bytes :=
  (List.range (b.length / n)).map fun k => slice b (k * n) n

/-- What follows the whole blocks. -/
def rest (n : ℕ) (b : Bytes) : Bytes := b.drop (b.length / n * n)

variable {n : ℕ}

theorem length_rest (n : ℕ) (b : Bytes) : (rest n b).length = b.length % n := by
  have := Nat.div_add_mod' b.length n
  rw [rest, List.length_drop]
  omega

theorem length_rest_lt (hn : 0 < n) (b : Bytes) : (rest n b).length < n :=
  (length_rest n b).trans_lt (Nat.mod_lt _ hn)

theorem blocks_of_lt {b : Bytes} (h : b.length < n) : blocks n b = [] := by
  rw [blocks, Nat.div_eq_of_lt h]
  rfl

theorem rest_of_lt {b : Bytes} (h : b.length < n) : rest n b = b := by
  rw [rest, Nat.div_eq_of_lt h, Nat.zero_mul, List.drop_zero]

theorem length_of_mem_blocks {b x : Bytes} (h : x ∈ blocks n b) : x.length = n := by
  obtain ⟨k, hk, rfl⟩ := List.mem_map.mp h
  refine length_slice ?_
  have hlt : k < b.length / n := List.mem_range.mp hk
  calc k * n + n = (k + 1) * n := (Nat.succ_mul k n).symm
    _ ≤ b.length / n * n := Nat.mul_le_mul_right n hlt
    _ ≤ b.length := Nat.div_mul_le_self _ _

private theorem length_append_div {x : Bytes} (hn : 0 < n) (hx : x.length = n) (b : Bytes) :
    (x ++ b).length / n = b.length / n + 1 := by
  rw [List.length_append, hx, Nat.add_div_left _ hn]

/-- The first block of a byte string that starts with one. -/
theorem blocks_block_append {x : Bytes} (hn : 0 < n) (hx : x.length = n) (b : Bytes) :
    blocks n (x ++ b) = x :: blocks n b := by
  rw [blocks, length_append_div hn hx, List.range_succ_eq_map, List.map_cons, List.map_map, blocks]
  congr 1
  · simp [slice, hx]
  · refine List.map_congr_left fun k _ => ?_
    have hsplit : k.succ * n = x.length + k * n := by
      rw [hx, Nat.succ_mul, Nat.add_comm]
    simp [slice, hsplit]

theorem rest_block_append {x : Bytes} (hn : 0 < n) (hx : x.length = n) (b : Bytes) :
    rest n (x ++ b) = rest n b := by
  have hsplit : (b.length / n + 1) * n = x.length + b.length / n * n := by
    rw [hx, Nat.succ_mul, Nat.add_comm]
  rw [rest, length_append_div hn hx, hsplit, rest]
  simp

/-- One block. -/
theorem blocks_block {x : Bytes} (hn : 0 < n) (hx : x.length = n) : blocks n x = [x] := by
  have h := blocks_block_append hn hx []
  rwa [List.append_nil, blocks_of_lt (b := []) hn] at h

theorem rest_block {x : Bytes} (hn : 0 < n) (hx : x.length = n) : rest n x = [] := by
  have h := rest_block_append hn hx []
  rwa [List.append_nil, rest_of_lt (b := []) hn] at h

/-- What does not fill a block does not change the blocks. -/
theorem blocks_take_whole (hn : 0 < n) (b : Bytes) :
    blocks n (b.take (b.length / n * n)) = blocks n b := by
  have hle : b.length / n * n ≤ b.length := Nat.div_mul_le_self _ _
  have hlen : (b.take (b.length / n * n)).length / n = b.length / n := by
    rw [List.length_take_of_le hle, Nat.mul_div_cancel _ hn]
  rw [blocks, hlen, blocks]
  refine List.map_congr_left fun k hk => ?_
  have hk : k < b.length / n := List.mem_range.mp hk
  have hin : k * n + n ≤ (b.take (b.length / n * n)).length := by
    rw [List.length_take_of_le hle, ← Nat.succ_mul]
    exact Nat.mul_le_mul_right n hk
  rw [← slice_append_left (c := b.drop (b.length / n * n)) hin, List.take_append_drop]

/-- Induction on the blocks of a byte string: one that does not fill a block, or a block and what
follows it. -/
theorem blocks_induction {P : Bytes → Prop} (hn : 0 < n) (short : ∀ b, b.length < n → P b)
    (block : ∀ x b, x.length = n → P b → P (x ++ b)) (b : Bytes) : P b := by
  induction h : b.length using Nat.strong_induction_on generalizing b with
  | _ l ih =>
      subst h
      by_cases hb : b.length < n
      · exact short b hb
      · have htail : (b.drop n).length < b.length := by
          rw [List.length_drop]
          omega
        rw [← List.take_append_drop n b]
        exact block _ _ (List.length_take_of_le (by omega)) (ih _ htail _ rfl)

/-- **Input that is appended goes behind what was kept back.** -/
theorem blocks_append (hn : 0 < n) (b c : Bytes) :
    blocks n (b ++ c) = blocks n b ++ blocks n (rest n b ++ c) := by
  induction b using blocks_induction hn with
  | short b hb => rw [blocks_of_lt hb, rest_of_lt hb, List.nil_append]
  | block x b hx ih =>
      rw [List.append_assoc, blocks_block_append hn hx, ih, blocks_block_append hn hx,
        rest_block_append hn hx, List.cons_append]

theorem rest_append (hn : 0 < n) (b c : Bytes) : rest n (b ++ c) = rest n (rest n b ++ c) := by
  induction b using blocks_induction hn with
  | short b hb => rw [rest_of_lt hb]
  | block x b hx ih =>
      rw [List.append_assoc, rest_block_append hn hx, ih, rest_block_append hn hx]

/-- The blocks and what is left over are the whole byte string. -/
theorem flatten_blocks_append_rest (hn : 0 < n) (b : Bytes) :
    (blocks n b).flatten ++ rest n b = b := by
  induction b using blocks_induction hn with
  | short b hb => rw [blocks_of_lt hb, rest_of_lt hb, List.flatten_nil, List.nil_append]
  | block x b hx ih =>
      rw [blocks_block_append hn hx, rest_block_append hn hx, List.flatten_cons, List.append_assoc,
        ih]

/-! ### A buffer for what is kept back -/

/-- What is written behind what was kept back. -/
theorem take_splice {buf m : Bytes} {i : ℕ} (h : i + m.length ≤ buf.length) :
    (splice buf i m).take (i + m.length) = buf.take i ++ m := by
  have hi : (buf.take i).length = i := List.length_take_of_le (by omega)
  rw [splice, List.take_left' (by rw [List.length_append, hi])]

/-- Bytes written one after another are written at once. -/
theorem splice_setByte {b : Bytes} {i : ℕ} {x : UInt8} {v : Bytes} (h : i + 1 + v.length ≤ b.length) :
    splice (setByte b i x) (i + 1) v = splice b i (x :: v) := by
  have hi : (b.take i).length = i := List.length_take_of_le (by omega)
  have hset : setByte b i x = (b.take i ++ [x]) ++ b.drop (i + 1) := by
    rw [setByte, splice, List.length_singleton]
  have hfront : (b.take i ++ [x]).length = i + 1 := by
    rw [List.length_append, hi, List.length_singleton]
  rw [splice, hset, List.take_left' hfront, List.drop_append, hfront, Nat.add_sub_cancel_left,
    List.drop_eq_nil_of_le (by omega), List.drop_drop, List.nil_append, splice, List.length_cons]
  simp [Nat.add_comm, Nat.add_left_comm]

/-! ### Keystreams in pieces -/

theorem xorStream_append (ks : ℕ → UInt8) (b c : Bytes) :
    xorStream ks (b ++ c) = xorStream ks b ++ xorStream (fun i => ks (b.length + i)) c := by
  simp only [xorStream, List.mapIdx_append, Nat.add_comm]

/-- Only as much of a keystream counts as there is to encrypt. -/
theorem xorStream_congr {ks ks' : ℕ → UInt8} {b : Bytes} (h : ∀ i < b.length, ks i = ks' i) :
    xorStream ks b = xorStream ks' b := by
  refine List.ext_getElem? fun i => ?_
  simp only [xorStream, List.getElem?_mapIdx]
  by_cases hi : i < b.length
  · rw [h i hi]
  · rw [List.getElem?_eq_none (by omega)]
    rfl

theorem take_xorStream (ks : ℕ → UInt8) (b : Bytes) (n : ℕ) :
    (xorStream ks b).take n = xorStream ks (b.take n) := by
  refine List.ext_getElem? fun i => ?_
  simp only [xorStream, List.getElem?_take, List.getElem?_mapIdx]
  split_ifs <;> rfl

/-! ### Byte strings combined byte by byte -/

theorem byteAt_append_right {b c : Bytes} {i : ℕ} (hb : b.length = i) (j : ℕ) :
    byteAt (b ++ c) (i + j) = byteAt c j := by
  rw [byteAt, byteAt, List.getD_eq_getElem?_getD, List.getD_eq_getElem?_getD,
    List.getElem?_append_right (by omega), hb, Nat.add_sub_cancel_left]

private theorem mul_add_xor {a b x y : ℕ} (hx : x < 256) (hy : y < 256) :
    (a * 256 + x) ^^^ (b * 256 + y) = (a ^^^ b) * 256 + (x ^^^ y) := by
  have hparts : ∀ {a x : ℕ}, x < 256 →
      (a * 256 + x) / 2 ^ 8 = a ∧ (a * 256 + x) % 2 ^ 8 = x := by omega
  have hdiv := Nat.xor_div_two_pow (a := a * 256 + x) (b := b * 256 + y) (n := 8)
  have hmod := Nat.xor_mod_two_pow (a := a * 256 + x) (b := b * 256 + y) (n := 8)
  rw [(hparts hx).1, (hparts hy).1] at hdiv
  rw [(hparts hx).2, (hparts hy).2] at hmod
  have hsplit := Nat.div_add_mod ((a * 256 + x) ^^^ (b * 256 + y)) (2 ^ 8)
  rw [hdiv, hmod] at hsplit
  exact hsplit.symm.trans (congrArg (· + (x ^^^ y)) (Nat.mul_comm _ _))

/-- Numbers are combined bit by bit when their bytes are. -/
theorem beNat_xorStream {a b : Bytes} (h : a.length = b.length) :
    beNat (xorStream (byteAt b) a) = beNat a ^^^ beNat b := by
  induction a using List.reverseRecOn generalizing b with
  | nil =>
      have hb : b = [] := List.eq_nil_of_length_eq_zero h.symm
      rw [hb]
      rfl
  | append_singleton a x ih =>
      have hne : b ≠ [] := by
        rintro rfl
        simp at h
      obtain ⟨c, y, rfl⟩ : ∃ c y, b = c ++ [y] :=
        ⟨b.dropLast, b.getLast hne, (List.dropLast_append_getLast hne).symm⟩
      have hlen : a.length = c.length := by simpa using h
      have hfront : xorStream (byteAt (c ++ [y])) a = xorStream (byteAt c) a :=
        xorStream_congr fun i hi => byteAt_append_left (hlen ▸ hi)
      have hlast : xorStream (fun i => byteAt (c ++ [y]) (a.length + i)) [x] = [x ^^^ y] := by
        have hy : byteAt (c ++ [y]) (a.length + 0) = y := byteAt_append_right hlen.symm 0
        rw [xorStream, List.mapIdx_cons, hy]
        rfl
      rw [xorStream_append, hfront, hlast, beNat_append_singleton, beNat_append_singleton,
        beNat_append_singleton, ih hlen, mul_add_xor x.toNat_lt y.toNat_lt, UInt8.toNat_xor]

theorem beNat_append (b c : Bytes) : beNat (b ++ c) = beNat b * 256 ^ c.length + beNat c := by
  induction c using List.reverseRecOn with
  | nil => simp [beNat]
  | append_singleton c x ih =>
      rw [← List.append_assoc, beNat_append_singleton, beNat_append_singleton, ih,
        List.length_append, List.length_singleton, pow_succ]
      ring

end ByteList
