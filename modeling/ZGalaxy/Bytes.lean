/-
ZGalaxy/Bytes.lean

Byte strings with fields at fixed offsets.

A wire format is a list of bytes in which a field is a run `slice b i n` and a
write to a field is `splice b i v`.  Everything a protocol proof asks about
headers is one of four questions, each answered once here: what a field holds
after it was written (`slice_splice_same`), what another field holds after that
(`slice_splice_disjoint`), that two writes to disjoint fields commute
(`splice_comm`), and that writing back what was there changes nothing
(`splice_slice_self`).

Integers are big-endian (`beNat`, `beBytes`, inverse to each other below the
width), and a keystream is a function of the byte position (`xorStream`, an
involution).  `flatMap_slice_chunks` says that cutting a byte string into
consecutive runs of one length and joining the runs again gives it back.
-/
import Mathlib.Data.List.Induction
import Mathlib.Tactic.Positivity
import Mathlib.Tactic.Ring
import Mathlib.Tactic.SplitIfs

namespace ByteList

/-- A byte string. -/
abbrev Bytes := List UInt8

/-! ### Fields -/

/-- The `n` bytes at offset `i`. -/
def slice (b : Bytes) (i n : ℕ) : Bytes := (b.drop i).take n

/-- The byte string `b` with the bytes at offset `i` overwritten by `v`. -/
def splice (b : Bytes) (i : ℕ) (v : Bytes) : Bytes :=
  b.take i ++ v ++ b.drop (i + v.length)

theorem length_slice {b : Bytes} {i n : ℕ} (h : i + n ≤ b.length) :
    (slice b i n).length = n := by
  simp only [slice, List.length_take, List.length_drop]
  omega

/-- A field that is as long as it should be lies within the bytes. -/
theorem le_of_length_slice {b : Bytes} {i n : ℕ} (hn : 0 < n) (h : (slice b i n).length = n) :
    i + n ≤ b.length := by
  simp only [slice, List.length_take, List.length_drop] at h
  omega

theorem length_splice {b : Bytes} {i : ℕ} {v : Bytes} (h : i + v.length ≤ b.length) :
    (splice b i v).length = b.length := by
  simp only [splice, List.length_append, List.length_take, List.length_drop]
  omega

theorem getElem?_slice (b : Bytes) (i n j : ℕ) :
    (slice b i n)[j]? = if j < n then b[i + j]? else none := by
  simp only [slice, List.getElem?_take, List.getElem?_drop]

theorem getElem?_splice {b : Bytes} {i : ℕ} {v : Bytes} (h : i + v.length ≤ b.length)
    (j : ℕ) :
    (splice b i v)[j]? =
      if j < i then b[j]? else if j < i + v.length then v[j - i]? else b[j]? := by
  have hlen : (b.take i).length = i := by
    rw [List.length_take]
    omega
  unfold splice
  split_ifs with h₁ h₂
  · rw [List.append_assoc, List.getElem?_append_left (by omega), List.getElem?_take, if_pos h₁]
  · rw [List.append_assoc, List.getElem?_append_right (by omega),
      List.getElem?_append_left (by omega), hlen]
  · have hl : (b.take i ++ v).length = i + v.length := by
      rw [List.length_append, hlen]
    rw [List.getElem?_append_right (by omega), List.getElem?_drop, hl]
    congr 1
    omega

/-- A field that was just written holds what was written. -/
theorem slice_splice_same {b : Bytes} {i n : ℕ} {v : Bytes} (hn : v.length = n)
    (h : i + n ≤ b.length) : slice (splice b i v) i n = v := by
  subst hn
  refine List.ext_getElem? fun j => ?_
  rw [getElem?_slice, getElem?_splice h]
  split_ifs with h₁ h₂ h₃
  · omega
  · congr 1
    omega
  · omega
  · exact (List.getElem?_eq_none (by omega)).symm

/-- A write leaves every disjoint field as it was. -/
theorem slice_splice_disjoint {b : Bytes} {i j n : ℕ} {v : Bytes}
    (h : i + v.length ≤ b.length) (hd : j + n ≤ i ∨ i + v.length ≤ j) :
    slice (splice b i v) j n = slice b j n := by
  refine List.ext_getElem? fun k => ?_
  rw [getElem?_slice, getElem?_slice, getElem?_splice h]
  split_ifs <;> first | rfl | omega

/-- Writes to disjoint fields commute. -/
theorem splice_comm {b : Bytes} {i j : ℕ} {v w : Bytes} (hi : i + v.length ≤ b.length)
    (hj : j + w.length ≤ b.length) (hd : i + v.length ≤ j ∨ j + w.length ≤ i) :
    splice (splice b i v) j w = splice (splice b j w) i v := by
  refine List.ext_getElem? fun k => ?_
  rw [getElem?_splice (by rwa [length_splice hi]), getElem?_splice hi,
    getElem?_splice (by rwa [length_splice hj]), getElem?_splice hj]
  split_ifs <;> first | rfl | omega

/-- The second of two writes to one field is the one that counts. -/
theorem splice_splice_same {b : Bytes} {i : ℕ} {v w : Bytes} (h : i + v.length ≤ b.length)
    (hvw : v.length = w.length) : splice (splice b i v) i w = splice b i w := by
  refine List.ext_getElem? fun k => ?_
  rw [getElem?_splice (by rw [length_splice h]; omega), getElem?_splice h,
    getElem?_splice (by omega)]
  split_ifs <;> first | rfl | omega

/-- Writing back what a field holds changes nothing. -/
theorem splice_slice_self {b : Bytes} {i n : ℕ} (h : i + n ≤ b.length) :
    splice b i (slice b i n) = b := by
  refine List.ext_getElem? fun k => ?_
  rw [getElem?_splice (by rw [length_slice h]; omega), length_slice h, getElem?_slice]
  split_ifs with h₁ h₂ h₃
  · rfl
  · congr 1
    omega
  · omega
  · rfl

@[simp] theorem splice_nil (b : Bytes) (i : ℕ) : splice b i [] = b := by
  simp [splice]

theorem slice_append_left {b c : Bytes} {i n : ℕ} (h : i + n ≤ b.length) :
    slice (b ++ c) i n = slice b i n := by
  refine List.ext_getElem? fun j => ?_
  rw [getElem?_slice, getElem?_slice]
  split_ifs with hj
  · exact List.getElem?_append_left (by omega)
  · rfl

theorem slice_slice (b : Bytes) (i n j m : ℕ) (h : j + m ≤ n) :
    slice (slice b i n) j m = slice b (i + j) m := by
  refine List.ext_getElem? fun k => ?_
  simp only [getElem?_slice]
  split_ifs <;> first | omega | (congr 1; omega) | rfl

theorem slice_zero_append (b : Bytes) (i : ℕ) : slice b 0 i ++ b.drop i = b := by
  simp only [slice, List.drop_zero, List.take_append_drop]

theorem slice_append_slice (b : Bytes) (i n m : ℕ) :
    slice b i n ++ slice b (i + n) m = slice b i (n + m) := by
  simp only [slice]
  rw [List.take_add, List.drop_drop]

/-- A write to the front part leaves what follows it alone. -/
theorem splice_append_left {b c : Bytes} {i : ℕ} {v : Bytes} (h : i + v.length ≤ b.length) :
    splice (b ++ c) i v = splice b i v ++ c := by
  have h₁ : i ≤ b.length := by omega
  simp only [splice, List.take_append_of_le_length h₁, List.drop_append_of_le_length h,
    List.append_assoc]

/-- The middle of three parts is the field between them. -/
theorem slice_middle {a b c : Bytes} {i n : ℕ} (hi : a.length = i) (hn : b.length = n) :
    slice (a ++ (b ++ c)) i n = b := by
  subst hi hn
  simp [slice]

/-- Overwriting the middle of three parts replaces it. -/
theorem splice_middle {a b c v : Bytes} {i : ℕ} (hi : a.length = i) (hv : v.length = b.length) :
    splice (a ++ (b ++ c)) i v = a ++ (v ++ c) := by
  subst hi
  simp [splice, hv]

/-! ### Single bytes -/

/-- The byte at offset `i`, zero past the end. -/
def byteAt (b : Bytes) (i : ℕ) : UInt8 := b.getD i 0

/-- The byte string `b` with the byte at offset `i` overwritten. -/
def setByte (b : Bytes) (i : ℕ) (x : UInt8) : Bytes := splice b i [x]

theorem length_setByte {b : Bytes} {i : ℕ} {x : UInt8} (h : i < b.length) :
    (setByte b i x).length = b.length :=
  length_splice (Nat.succ_le_of_lt h)

theorem byteAt_setByte_same {b : Bytes} {i : ℕ} {x : UInt8} (h : i < b.length) :
    byteAt (setByte b i x) i = x := by
  rw [byteAt, setByte, List.getD_eq_getElem?_getD, getElem?_splice (Nat.succ_le_of_lt h)]
  simp

theorem byteAt_splice_disjoint {b : Bytes} {i j : ℕ} {v : Bytes}
    (h : i + v.length ≤ b.length) (hd : j < i ∨ i + v.length ≤ j) :
    byteAt (splice b i v) j = byteAt b j := by
  rw [byteAt, byteAt, List.getD_eq_getElem?_getD, List.getD_eq_getElem?_getD, getElem?_splice h]
  split_ifs <;> first | rfl | omega

theorem slice_setByte_disjoint {b : Bytes} {i j n : ℕ} {x : UInt8} (h : i < b.length)
    (hd : j + n ≤ i ∨ i < j) : slice (setByte b i x) j n = slice b j n :=
  slice_splice_disjoint (Nat.succ_le_of_lt h) (hd.imp_right Nat.succ_le_of_lt)

/-- A field of one byte is that byte. -/
theorem slice_one {b : Bytes} {i : ℕ} (h : i < b.length) : slice b i 1 = [byteAt b i] := by
  refine List.ext_getElem? fun j => ?_
  rw [getElem?_slice, byteAt, List.getD_eq_getElem?_getD]
  rcases j with - | j
  · simp [List.getElem?_eq_getElem h]
  · simp

theorem setByte_byteAt_self {b : Bytes} {i : ℕ} (h : i < b.length) :
    setByte b i (byteAt b i) = b := by
  rw [setByte, ← slice_one h]
  exact splice_slice_self (by omega)

theorem byteAt_append_left {b c : Bytes} {i : ℕ} (h : i < b.length) :
    byteAt (b ++ c) i = byteAt b i := by
  rw [byteAt, byteAt, List.getD_eq_getElem?_getD, List.getD_eq_getElem?_getD,
    List.getElem?_append_left h]

theorem byteAt_slice (b : Bytes) {i n j : ℕ} (h : j < n) :
    byteAt (slice b i n) j = byteAt b (i + j) := by
  rw [byteAt, byteAt, List.getD_eq_getElem?_getD, List.getD_eq_getElem?_getD, getElem?_slice,
    if_pos h]

/-! ### Cutting a byte string into runs -/

/-- **Joining consecutive runs gives the byte string back**: `n` runs of `c` bytes
from offset `a` are everything from `a` on, once they reach the end. -/
theorem flatMap_slice_chunks (b : Bytes) (a c n : ℕ) (h : b.length ≤ a + n * c) :
    (List.range n).flatMap (fun k => slice b (a + k * c) c) = b.drop a := by
  have key : ∀ m, (List.range m).flatMap (fun k => slice b (a + k * c) c)
      = slice b a (m * c) := by
    intro m
    induction m with
    | zero => simp [slice]
    | succ m ih =>
        rw [List.range_succ, List.flatMap_append, ih, List.flatMap_singleton,
          slice_append_slice]
        congr 1
        ring
  rw [key, slice, List.take_of_length_le]
  rw [List.length_drop]
  omega

/-! ### Big-endian integers -/

/-- The value of a big-endian byte string. -/
def beNat (b : Bytes) : ℕ := b.foldl (fun acc x => acc * 256 + x.toNat) 0

/-- The `n` low-order bytes of `v`, most significant first. -/
def beBytes : ℕ → ℕ → Bytes
  | 0, _ => []
  | n + 1, v => beBytes n (v / 256) ++ [UInt8.ofNat v]

@[simp] theorem length_beBytes (n v : ℕ) : (beBytes n v).length = n := by
  induction n generalizing v with
  | zero => rfl
  | succ n ih => simp [beBytes, ih]

theorem beNat_append_singleton (b : Bytes) (x : UInt8) :
    beNat (b ++ [x]) = beNat b * 256 + x.toNat := by
  simp only [beNat, List.foldl_append, List.foldl_cons, List.foldl_nil]

theorem beNat_beBytes (n v : ℕ) : beNat (beBytes n v) = v % 256 ^ n := by
  induction n generalizing v with
  | zero => simp [beBytes, beNat, Nat.mod_one]
  | succ n ih =>
      have hmod : v % 256 ^ (n + 1) = v % 256 + 256 * (v / 256 % 256 ^ n) := by
        rw [pow_succ, Nat.mul_comm, Nat.mod_mul]
      rw [beBytes, beNat_append_singleton, ih, UInt8.toNat_ofNat', hmod]
      omega

theorem beBytes_beNat (b : Bytes) : beBytes b.length (beNat b) = b := by
  induction b using List.reverseRecOn with
  | nil => rfl
  | append_singleton b x ih =>
      have hx : x.toNat < 256 := x.toNat_lt
      have hdiv : (beNat b * 256 + x.toNat) / 256 = beNat b := by omega
      have hmod : UInt8.ofNat (beNat b * 256 + x.toNat) = x := by
        apply UInt8.toNat_inj.mp
        rw [UInt8.toNat_ofNat']
        omega
      rw [List.length_append, List.length_singleton, beBytes, beNat_append_singleton, hdiv, ih,
        hmod]

theorem beNat_lt (b : Bytes) : beNat b < 256 ^ b.length := by
  have h := beNat_beBytes b.length (beNat b)
  rw [beBytes_beNat] at h
  rw [h]
  exact Nat.mod_lt _ (by positivity)

/-- Byte strings of one length with the same value are equal. -/
theorem eq_of_beNat_eq {b c : Bytes} (hl : b.length = c.length) (h : beNat b = beNat c) :
    b = c := by
  rw [← beBytes_beNat b, ← beBytes_beNat c, hl, h]

/-! ### Rows of integers -/

/-- Integers of the widths they are paired with, one after the other. -/
def beFields (fs : List (ℕ × ℕ)) : Bytes := fs.flatMap fun f => beBytes f.1 f.2

theorem length_beFields (fs : List (ℕ × ℕ)) : (beFields fs).length = (fs.map Prod.fst).sum := by
  simp [beFields, List.length_flatMap]

/-- Rows of the same widths whose integers fit are told apart by their bytes, whatever
follows them. -/
theorem beFields_append_inj {fs gs : List (ℕ × ℕ)} {x y : Bytes}
    (hw : fs.map Prod.fst = gs.map Prod.fst) (hf : ∀ f ∈ fs, f.2 < 256 ^ f.1)
    (hg : ∀ g ∈ gs, g.2 < 256 ^ g.1) (h : beFields fs ++ x = beFields gs ++ y) :
    fs = gs ∧ x = y := by
  induction fs generalizing gs with
  | nil =>
      obtain rfl : gs = [] := by simpa using hw.symm
      exact ⟨rfl, h⟩
  | cons f fs ih =>
      rcases gs with - | ⟨g, gs⟩
      · simp at hw
      simp only [List.map_cons, List.cons.injEq] at hw
      simp only [beFields, List.flatMap_cons, List.append_assoc] at h
      obtain ⟨hfg, hrest⟩ := List.append_inj h (by rw [length_beBytes, length_beBytes, hw.1])
      have hval : f.2 = g.2 := by
        have hb := congrArg beNat hfg
        rwa [beNat_beBytes, beNat_beBytes, Nat.mod_eq_of_lt (hf f List.mem_cons_self),
          Nat.mod_eq_of_lt (hg g List.mem_cons_self)] at hb
      obtain ⟨htail, hxy⟩ := ih hw.2 (fun f' hf' => hf f' (List.mem_cons_of_mem f hf'))
        (fun g' hg' => hg g' (List.mem_cons_of_mem g hg')) hrest
      exact ⟨by rw [Prod.ext hw.1 hval, htail], hxy⟩

/-! ### Keystreams -/

/-- `b` with the keystream `ks` XORed into it. -/
def xorStream (ks : ℕ → UInt8) (b : Bytes) : Bytes := b.mapIdx fun i x => x ^^^ ks i

@[simp] theorem length_xorStream (ks : ℕ → UInt8) (b : Bytes) :
    (xorStream ks b).length = b.length := by
  simp [xorStream]

/-- Applying a keystream twice gives the byte string back. -/
@[simp] theorem xorStream_xorStream (ks : ℕ → UInt8) (b : Bytes) :
    xorStream ks (xorStream ks b) = b := by
  refine List.ext_getElem? fun i => ?_
  simp only [xorStream, List.getElem?_mapIdx, Option.map_map]
  rcases b[i]? with - | x
  · rfl
  · show some (x ^^^ ks i ^^^ ks i) = some x
    rw [UInt8.xor_assoc, UInt8.xor_self, UInt8.xor_zero]

/-- The keystream itself is what it makes of zeros. -/
theorem xorStream_replicate_zero (ks : ℕ → UInt8) (n : ℕ) :
    xorStream ks (List.replicate n 0) = (List.range n).map ks := by
  refine List.ext_getElem? fun i => ?_
  by_cases hi : i < n <;> simp [xorStream, hi]

end ByteList
