/-
ZGalaxy/AesCtr.lean

AES in counter mode, fed in pieces of any length.

The software implementation writes input that does not fill a block to the output as it is.  The
next call continues that block byte by byte until it is full, and only then is it encrypted in place
(`fill`); whole blocks go through an inlined copy of the cipher with the counter in a register
(`ctrBlock`); and `finish` encrypts what is left.  So between two calls the output is the encrypted
blocks and, in the clear, the rest (`Processed`).

The place in the output is a word of 32 bits: after `2 ^ 32` bytes the next ones are written over the
first.

The keystream is that of the blocks `counterBlock iv i`, of which the last four bytes count modulo
`2 ^ 32` while the other twelve stay (`ctrStream`).

Main result: `ctr_pieces`, the output is the input under that keystream, if it has fewer than
`2 ^ 32` bytes, however it was cut into pieces and whichever buffers were aligned.
-/
import ZGalaxy.Aes
import ZGalaxy.Blocks

namespace ZGalaxy

open ByteList

namespace Aes

/-! ### The code of the source -/

/-- `AES::CTR`: the next counter block, what was written to the output, and `_len`. -/
structure Ctr where
  ctr : Bytes
  out : Bytes
  len : BitVec 32

/-- `CTR::init` with an initialization vector of 16 bytes. -/
def Ctr.init (iv : Bytes) : Ctr := ⟨iv, [], 0⟩

/-- The counter: the last word of the counter block. -/
def Ctr.counter (s : Ctr) : BitVec 32 := loadBigEndian s.ctr 12

/-- The loop of `CTR::crypt` that continues a block: the input after it, or nothing when the input
ended first. -/
def fill (key : Bytes) (s : Ctr) : Bytes → Ctr × Option Bytes
  | [] => (s, none)
  | x :: input =>
      let out := splice s.out s.len.toNat [x]
      let len := s.len + 1
      if len.toNat % 16 = 0 then
        let keyStream := encryptSW key s.ctr
        let outblk := (len - 16).toNat
        ({ ctr := splice s.ctr 12 (storeBigEndian (s.counter + 1)),
           out := splice out outblk (xorStream (byteAt keyStream) (slice out outblk 16)),
           len := len }, some input)
      else fill key { s with out := out, len := len } input

/-- The cipher as `CTR::crypt` has it in its loops, with `ctr0rk0`, `ctr1rk1` and `ctr2rk2`. -/
def ctrBlock (key : Bytes) (c0 c1 c2 ctr : BitVec 32) : Words :=
  let rk := fun n => (ek key).getD n 0#32
  let s := (List.range 13).foldl (fun s r => encryptRound encryptWord rk s (r + 1))
    ⟨c0, c1, c2, ctr ^^^ rk 3⟩
  encryptRound encryptLast rk s 14

/-- The bytes of a word one by one. -/
def wordBytes (x : BitVec 32) : Bytes :=
  [⟨(x >>> 24).setWidth 8⟩, ⟨(x >>> 16).setWidth 8⟩, ⟨(x >>> 8).setWidth 8⟩, ⟨x.setWidth 8⟩]

/-- What a block of input becomes: eight bytes at a time when both buffers are aligned, else byte by
byte. -/
def xorBlock (aligned : Bool) (s : Words) (input : Bytes) : Bytes :=
  if aligned then
    xorStream (byteAt (beBytes 8 (s.s0.setWidth 64 <<< 32 ||| s.s1.setWidth 64).toNat))
        (slice input 0 8)
      ++ xorStream (byteAt (beBytes 8 (s.s2.setWidth 64 <<< 32 ||| s.s3.setWidth 64).toNat))
        (slice input 8 8)
  else
    xorStream (byteAt (wordBytes s.s0 ++ wordBytes s.s1 ++ wordBytes s.s2 ++ wordBytes s.s3)) input

/-- The loops of `CTR::crypt` over whole blocks: the next counter block, and what they write. -/
def wholeBlocks (aligned : Bool) (key : Bytes) (s : Ctr) (input : Bytes) : Bytes × Bytes :=
  let rk := fun n => (ek key).getD n 0#32
  let c0 := loadBigEndian s.ctr 0 ^^^ rk 0
  let c1 := loadBigEndian s.ctr 4 ^^^ rk 1
  let c2 := loadBigEndian s.ctr 8 ^^^ rk 2
  let (ctr, out) := (blocks 16 input).foldl
    (fun (ctr, out) b => (ctr + 1, out ++ xorBlock aligned (ctrBlock key c0 c1 c2 ctr) b))
    (s.counter, [])
  (splice s.ctr 12 (storeBigEndian ctr), out)

/-- `CTR::crypt` past the block begun before: from here on the output is written through a
pointer. -/
def cryptRest (aligned : Bool) (key : Bytes) (s : Ctr) (input : Bytes) : Ctr :=
  let (ctr, out) := if 16 ≤ input.length then wholeBlocks aligned key s input else (s.ctr, [])
  { ctr := ctr
    out := splice s.out s.len.toNat (out ++ rest 16 input)
    len := s.len + BitVec.ofNat 32 input.length }

/-- `CTR::crypt`. -/
def Ctr.crypt (aligned : Bool) (key : Bytes) (s : Ctr) (input : Bytes) : Ctr :=
  if s.len.toNat % 16 = 0 then cryptRest aligned key s input
  else
    match fill key s input with
    | (s, none) => s
    | (s, some input) => cryptRest aligned key s input

/-- `CTR::finish`. -/
def Ctr.finish (key : Bytes) (s : Ctr) : Bytes :=
  let rem := s.len.toNat % 16
  if rem = 0 then s.out
  else
    let tmp := encryptSW key s.ctr
    let j := s.len.toNat - rem
    splice s.out j (xorStream (byteAt tmp) (slice s.out j rem))

/-! ### The keystream -/

/-- The counter block, `i` blocks on. -/
def counterBlock (iv : Bytes) (i : ℕ) : Bytes :=
  slice iv 0 12 ++ storeBigEndian (loadBigEndian iv 12 + BitVec.ofNat 32 i)

/-- The keystream of counter mode. -/
def ctrStream (key iv : Bytes) (i : ℕ) : UInt8 :=
  byteAt (encryptSW key (counterBlock iv (i / 16))) (i % 16)

theorem loadBigEndian_append {b : Bytes} {i : ℕ} (hb : b.length = i) (x : BitVec 32) :
    loadBigEndian (b ++ storeBigEndian x) i = x := by
  have hslice : slice (b ++ storeBigEndian x) i 4 = storeBigEndian x := by
    have := slice_middle (c := []) hb (length_storeBigEndian x)
    rwa [List.append_nil] at this
  refine BitVec.eq_of_toNat_eq ?_
  rw [loadBigEndian, hslice, storeBigEndian, beNat_beBytes, BitVec.toNat_ofNat]
  have := x.isLt
  omega

theorem counter_succ (iv : Bytes) (i : ℕ) : loadBigEndian iv 12 + BitVec.ofNat 32 i + 1
    = loadBigEndian iv 12 + BitVec.ofNat 32 (i + 1) := by
  rw [BitVec.add_assoc]
  congr 1
  exact (BitVec.ofNat_add i 1).symm

section

variable {key iv : Bytes} (hiv : iv.length = 16)

include hiv

theorem length_head : (slice iv 0 12).length = 12 := length_slice (by omega)

theorem counterBlock_zero : counterBlock iv 0 = iv := by
  have hword : storeBigEndian (loadBigEndian iv 12) = slice iv 12 4 := by
    have hlen : (slice iv 12 4).length = 4 := length_slice (by omega)
    have hlt : beNat (slice iv 12 4) < 2 ^ 32 := by
      have := beNat_lt (slice iv 12 4)
      rw [hlen] at this
      exact this
    rw [storeBigEndian, loadBigEndian, BitVec.toNat_ofNat, Nat.mod_eq_of_lt hlt]
    have := beBytes_beNat (slice iv 12 4)
    rwa [hlen] at this
  rw [counterBlock, BitVec.add_zero, hword, slice_append_slice]
  exact List.take_of_length_le (by rw [List.drop_zero, hiv])

theorem counter_counterBlock (i : ℕ) :
    loadBigEndian (counterBlock iv i) 12 = loadBigEndian iv 12 + BitVec.ofNat 32 i :=
  loadBigEndian_append (length_head hiv) _

/-- Putting another counter into a counter block. -/
theorem splice_counterBlock (i j : ℕ) :
    splice (counterBlock iv i) 12 (storeBigEndian (loadBigEndian iv 12 + BitVec.ofNat 32 j))
      = counterBlock iv j := by
  have h := splice_middle (c := []) (length_head hiv)
    ((length_storeBigEndian (loadBigEndian iv 12 + BitVec.ofNat 32 j)).trans
      (length_storeBigEndian (loadBigEndian iv 12 + BitVec.ofNat 32 i)).symm)
  simpa only [List.append_nil, counterBlock] using h

end

theorem slice_counterBlock {iv : Bytes} (hiv : iv.length = 16) (i : ℕ) {j : ℕ} (hj : j + 4 ≤ 12) :
    loadBigEndian (counterBlock iv i) j = loadBigEndian iv j := by
  have h : slice (counterBlock iv i) j 4 = slice iv j 4 := by
    rw [counterBlock, slice_append_left (by rw [length_head hiv]; exact hj), slice_slice _ _ _ _ _ hj,
      Nat.zero_add]
  rw [loadBigEndian, h, loadBigEndian]

/-! ### A block -/

theorem wordBytes_eq (x : BitVec 32) : wordBytes x = storeBigEndian x := by
  have h : beNat (wordBytes x) = x.toNat := by
    have := x.isLt
    simp only [wordBytes, beNat, List.foldl_cons, List.foldl_nil, UInt8.toNat, BitVec.toNat_setWidth,
      Words.toNat_shiftRight]
    omega
  rw [storeBigEndian, ← h]
  exact (beBytes_beNat (wordBytes x)).symm

/-- Two words stored as one of 64 bits. -/
theorem beBytes_two (x y : BitVec 32) :
    beBytes 8 (x.setWidth 64 <<< 32 ||| y.setWidth 64).toNat
      = storeBigEndian x ++ storeBigEndian y := by
  have hx := x.isLt
  have hy := y.isLt
  have h : (x.setWidth 64 <<< 32 ||| y.setWidth 64).toNat
      = beNat (wordBytes x ++ wordBytes y) := by
    have hdvd : 2 ^ 32 ∣ x.toNat * 2 ^ 32 := Nat.dvd_mul_left _ _
    rw [BitVec.toNat_or, Words.toNat_shiftLeft, BitVec.toNat_setWidth, BitVec.toNat_setWidth,
      Nat.mod_eq_of_lt (show x.toNat < 2 ^ 64 by omega),
      Nat.mod_eq_of_lt (show y.toNat < 2 ^ 64 by omega),
      Nat.mod_eq_of_lt (show x.toNat * 2 ^ 32 < 2 ^ 64 by omega), Nat.or_comm,
      Words.or_eq_add hy hdvd]
    simp only [wordBytes, beNat, List.cons_append, List.nil_append, List.foldl_cons, List.foldl_nil,
      UInt8.toNat, BitVec.toNat_setWidth, Words.toNat_shiftRight]
    omega
  rw [h, ← wordBytes_eq, ← wordBytes_eq]
  exact beBytes_beNat (wordBytes x ++ wordBytes y)

/-- Both loops apply the words of the state to a block. -/
theorem xorBlock_eq (aligned : Bool) (s : Words) {b : Bytes} (hb : b.length = 16) :
    xorBlock aligned s b = xorStream (byteAt (storeBlock s)) b := by
  have hbytes : storeBlock s = wordBytes s.s0 ++ wordBytes s.s1 ++ wordBytes s.s2 ++ wordBytes s.s3 := by
    rw [storeBlock, wordBytes_eq, wordBytes_eq, wordBytes_eq, wordBytes_eq]
  cases aligned with
  | false => rw [xorBlock, if_neg Bool.false_ne_true, ← hbytes]
  | true =>
      have hlow : (slice b 0 8).length = 8 := length_slice (by omega)
      have hhigh : (slice b 8 8).length = 8 := length_slice (by omega)
      have hsplit : slice b 0 8 ++ slice b 8 8 = b := by
        rw [slice_append_slice]
        exact List.take_of_length_le (by rw [List.drop_zero, hb])
      have hfront : (storeBigEndian s.s0 ++ storeBigEndian s.s1).length = 8 := by
        rw [List.length_append, length_storeBigEndian, length_storeBigEndian]
      have hstore : storeBlock s = (storeBigEndian s.s0 ++ storeBigEndian s.s1)
          ++ (storeBigEndian s.s2 ++ storeBigEndian s.s3) := by
        rw [storeBlock, List.append_assoc]
      conv_rhs => rw [← hsplit]
      rw [xorBlock, if_pos rfl, beBytes_two, beBytes_two, xorStream_append, hlow, hstore]
      congr 1
      · refine xorStream_congr fun i hi => ?_
        exact (byteAt_append_left (by rw [hfront]; omega)).symm
      · refine xorStream_congr fun i _ => ?_
        exact (byteAt_append_right hfront i).symm

section

variable {key iv : Bytes} (hiv : iv.length = 16)

include hiv

/-- The inlined cipher encrypts the counter block. -/
theorem storeBlock_ctrBlock (i : ℕ) :
    storeBlock (ctrBlock key (loadBigEndian iv 0 ^^^ (ek key).getD 0 0#32)
        (loadBigEndian iv 4 ^^^ (ek key).getD 1 0#32) (loadBigEndian iv 8 ^^^ (ek key).getD 2 0#32)
        (loadBigEndian iv 12 + BitVec.ofNat 32 i))
      = encryptSW key (counterBlock iv i) := by
  rw [encryptSW, loadBlock, slice_counterBlock hiv i (by decide), slice_counterBlock hiv i (by decide),
    slice_counterBlock hiv i (by decide), counter_counterBlock hiv]
  rfl

omit hiv in
/-- The keystream of one block. -/
theorem xorStream_block (i : ℕ) {b : Bytes} (hb : b.length ≤ 16) :
    xorStream (byteAt (encryptSW key (counterBlock iv i))) b
      = xorStream (fun j => ctrStream key iv (16 * i + j)) b := by
  refine xorStream_congr fun j hj => ?_
  have hdiv : (16 * i + j) / 16 = i := by omega
  have hmod : (16 * i + j) % 16 = j := by omega
  rw [ctrStream, hdiv, hmod]

/-- The loop over whole blocks, from block `i` on. -/
theorem foldl_blocks (aligned : Bool) {bs : List Bytes} (hbs : ∀ b ∈ bs, b.length = 16) :
    ∀ (i : ℕ) (out : Bytes), bs.foldl (fun (x : BitVec 32 × Bytes) b =>
        (x.1 + 1, x.2 ++ xorBlock aligned (ctrBlock key (loadBigEndian iv 0 ^^^ (ek key).getD 0 0#32)
          (loadBigEndian iv 4 ^^^ (ek key).getD 1 0#32)
          (loadBigEndian iv 8 ^^^ (ek key).getD 2 0#32) x.1) b))
        (loadBigEndian iv 12 + BitVec.ofNat 32 i, out)
      = (loadBigEndian iv 12 + BitVec.ofNat 32 (i + bs.length),
        out ++ xorStream (fun j => ctrStream key iv (16 * i + j)) bs.flatten) := by
  induction bs with
  | nil =>
      intro i out
      simp [xorStream]
  | cons b bs ih =>
      intro i out
      have hb : b.length = 16 := hbs b List.mem_cons_self
      have hshift : (fun j => ctrStream key iv (16 * i + (b.length + j)))
          = fun j => ctrStream key iv (16 * (i + 1) + j) := by
        funext j
        congr 1
        omega
      rw [List.foldl_cons, counter_succ, ih (fun c hc => hbs c (List.mem_cons_of_mem _ hc)),
        xorBlock_eq aligned _ hb, storeBlock_ctrBlock hiv, xorStream_block i hb.le,
        List.flatten_cons, xorStream_append, hshift, List.append_assoc, List.length_cons,
        Nat.add_assoc, Nat.add_comm 1]

end

/-! ### Between two calls -/

/-- What is written at the end is appended. -/
theorem splice_length {b : Bytes} {n : ℕ} (hn : n = b.length) (v : Bytes) :
    splice b n v = b ++ v := by
  rw [hn, splice, List.take_length, List.drop_of_length_le (Nat.le_add_right _ _),
    List.append_nil]

/-- The last bytes are written anew. -/
theorem splice_last {b : Bytes} {j n : ℕ} (hb : j + n = b.length) (f : ℕ → UInt8) :
    splice b j (xorStream f (slice b j n)) = b.take j ++ xorStream f (b.drop j) := by
  have hslice : slice b j n = b.drop j := by
    refine List.take_of_length_le ?_
    rw [List.length_drop]
    omega
  have hend : b.drop (j + (b.drop j).length) = [] := by
    refine List.drop_of_length_le ?_
    rw [List.length_drop]
    omega
  rw [hslice, splice, length_xorStream, hend, List.append_nil]

/-- What `s` is after the input `d`: the next counter block, and in the output the encrypted blocks
and then, as they came, the bytes that do not fill a block. -/
structure Processed (key iv d : Bytes) (s : Ctr) : Prop where
  ctr : s.ctr = counterBlock iv (d.length / 16)
  out : s.out = xorStream (ctrStream key iv) (blocks 16 d).flatten ++ rest 16 d
  len : s.len = BitVec.ofNat 32 d.length

section

variable {key iv d : Bytes} {s : Ctr}

theorem length_flatten_blocks (d : Bytes) :
    (blocks 16 d).flatten.length = 16 * (d.length / 16) := by
  have h := congrArg List.length (flatten_blocks_append_rest (n := 16) (by decide) d)
  rw [List.length_append, length_rest] at h
  omega

theorem Processed.length_out (h : Processed key iv d s) : s.out.length = d.length := by
  rw [h.out, List.length_append, length_xorStream, length_flatten_blocks, length_rest]
  omega

theorem Processed.toNat_len (h : Processed key iv d s) (hd : d.length < 2 ^ 32) :
    s.len.toNat = d.length := by
  rw [h.len, BitVec.toNat_ofNat, Nat.mod_eq_of_lt hd]

theorem Processed.init (key : Bytes) (hiv : iv.length = 16) : Processed key iv [] (.init iv) :=
  ⟨(counterBlock_zero hiv).symm, rfl, rfl⟩

/-- Behind whole blocks. -/
theorem Processed.cryptRest (hiv : iv.length = 16) (h : Processed key iv d s) (hd : rest 16 d = [])
    (aligned : Bool) {m : Bytes} (hlen : (d ++ m).length < 2 ^ 32) :
    Processed key iv (d ++ m) (cryptRest aligned key s m) := by
  have hwhole : 16 * (d.length / 16) = d.length := by
    have := length_rest 16 d
    rw [hd, List.length_nil] at this
    omega
  have hblocks : blocks 16 (d ++ m) = blocks 16 d ++ blocks 16 m := by
    rw [blocks_append (by decide), hd, List.nil_append]
  have hrest : rest 16 (d ++ m) = rest 16 m := by
    rw [rest_append (by decide), hd, List.nil_append]
  have hdiv : (d ++ m).length / 16 = d.length / 16 + (blocks 16 m).length := by
    rw [List.length_append, blocks, List.length_map, List.length_range]
    omega
  have hloop : wholeBlocks aligned key s m = (counterBlock iv ((d ++ m).length / 16),
      xorStream (fun j => ctrStream key iv (d.length + j)) (blocks 16 m).flatten) := by
    have hsizes : ∀ b ∈ blocks 16 m, b.length = 16 := fun b hb => length_of_mem_blocks hb
    have hfold := @foldl_blocks key iv hiv aligned _ hsizes (d.length / 16) []
    rw [hwhole, List.nil_append] at hfold
    simp only [wholeBlocks, Ctr.counter, h.ctr, slice_counterBlock hiv _ (show 0 + 4 ≤ 12 by decide),
      slice_counterBlock hiv _ (show 4 + 4 ≤ 12 by decide),
      slice_counterBlock hiv _ (show 8 + 4 ≤ 12 by decide), counter_counterBlock hiv, hfold,
      splice_counterBlock hiv, hdiv]
  have hs : (if 16 ≤ m.length then wholeBlocks aligned key s m else (s.ctr, []))
      = (counterBlock iv ((d ++ m).length / 16),
        xorStream (fun j => ctrStream key iv (d.length + j)) (blocks 16 m).flatten) := by
    split_ifs with hm
    · exact hloop
    · have hnone : blocks 16 m = [] := blocks_of_lt (by omega)
      rw [hdiv, hnone, List.length_nil, Nat.add_zero, ← h.ctr, List.flatten_nil]
      rfl
  have hroom : d.length < 2 ^ 32 := by
    rw [List.length_append] at hlen
    omega
  rw [Aes.cryptRest, hs]
  refine ⟨rfl, ?_, ?_⟩
  · dsimp only
    rw [splice_length ((h.toNat_len hroom).trans h.length_out.symm), hblocks, hrest,
      List.flatten_append, xorStream_append, length_flatten_blocks, hwhole, h.out, hd,
      List.append_nil, List.append_assoc]
  · dsimp only
    rw [h.len, List.length_append, BitVec.ofNat_add]

/-- The loop that continues a block. -/
theorem fill_eq (key : Bytes) {s : Ctr} {m : Bytes} (hs : s.out.length % 16 ≠ 0)
    (hlen : s.len.toNat = s.out.length) (hroom : s.out.length + m.length < 2 ^ 32) :
    fill key s m = if s.out.length % 16 + m.length < 16 then
        ({ s with out := s.out ++ m, len := s.len + BitVec.ofNat 32 m.length }, none)
      else
        let out := s.out ++ m.take (16 - s.out.length % 16)
        ({ ctr := splice s.ctr 12 (storeBigEndian (s.counter + 1)),
           out := out.take (out.length - 16)
            ++ xorStream (byteAt (encryptSW key s.ctr)) (out.drop (out.length - 16)),
           len := s.len + BitVec.ofNat 32 (16 - s.out.length % 16) },
          some (m.drop (16 - s.out.length % 16))) := by
  induction m generalizing s with
  | nil =>
      rw [if_pos (by simpa using Nat.mod_lt _ (by decide)), List.append_nil]
      simp [fill]
  | cons x m ih =>
      rw [List.length_cons] at hroom
      have hout : splice s.out s.len.toNat [x] = s.out ++ [x] := splice_length hlen [x]
      have hlength : (s.out ++ [x]).length = s.out.length + 1 := by
        rw [List.length_append, List.length_singleton]
      have hnext : (s.len + 1).toNat = s.out.length + 1 := by
        rw [BitVec.toNat_add, hlen, show (1 : BitVec 32).toNat = 1 from rfl,
          Nat.mod_eq_of_lt (by omega)]
      rw [fill]
      dsimp only
      rw [hout, hnext]
      by_cases hfull : (s.out.length + 1) % 16 = 0
      · -- the block is full: it is encrypted where it stands
        have hone : 16 - s.out.length % 16 = 1 := by omega
        have hblock : (s.len + 1 - 16).toNat = s.out.length + 1 - 16 := by
          rw [BitVec.toNat_sub, hnext, show (16 : BitVec 32).toNat = 16 from rfl]
          omega
        have hend : s.out.length + 1 - 16 + 16 = (s.out ++ [x]).length := by
          rw [hlength]
          omega
        rw [if_pos hfull, if_neg (by rw [List.length_cons]; omega), hone, hblock,
          splice_last hend]
        simp only [List.take_succ_cons, List.take_zero, List.drop_succ_cons, List.drop_zero,
          hlength]
        rfl
      · have hmod : (s.out.length + 1) % 16 = s.out.length % 16 + 1 := by omega
        have hk : 16 - s.out.length % 16 = (16 - (s.out.length % 16 + 1)) + 1 := by omega
        have hone (n : ℕ) :
            s.len + 1 + BitVec.ofNat 32 n = s.len + BitVec.ofNat 32 (n + 1) := by
          rw [BitVec.add_assoc, Nat.add_comm n 1, BitVec.ofNat_add]
          rfl
        rw [if_neg hfull, ih (s := { s with out := s.out ++ [x], len := s.len + 1 })
          (by rw [hlength]; exact hfull) (by rw [hlength]; exact hnext)
          (by rw [hlength]; omega)]
        simp only [hlength, hmod, List.length_cons, List.append_assoc, List.singleton_append, hone]
        rw [hk, List.take_succ_cons, List.drop_succ_cons]
        refine if_congr ?_ rfl rfl
        omega

/-- **A call of `CTR::crypt`** continues the block begun before, or begins with a new one. -/
theorem Processed.crypt (hiv : iv.length = 16) (h : Processed key iv d s) (aligned : Bool)
    {m : Bytes} (hroom : (d ++ m).length < 2 ^ 32) :
    Processed key iv (d ++ m) (s.crypt aligned key m) := by
  have hroom' := hroom
  rw [List.length_append] at hroom'
  have hlen' := h.toNat_len (by omega)
  rw [Ctr.crypt, hlen']
  split_ifs with hd
  · exact h.cryptRest hiv (List.eq_nil_of_length_eq_zero (by rw [length_rest, hd])) aligned hroom
  rw [fill_eq key (by rwa [h.length_out]) (hlen'.trans h.length_out.symm)
    (by rwa [h.length_out]), h.length_out]
  have hlen := length_rest 16 d
  by_cases hshort : d.length % 16 + m.length < 16
  · -- the block is not full yet
    have hlt : (rest 16 d ++ m).length < 16 := by
      rw [List.length_append, hlen]
      exact hshort
    rw [if_pos hshort]
    refine ⟨?_, ?_, ?_⟩
    · rw [h.ctr, List.length_append]
      congr 1
      omega
    · rw [blocks_append (by decide), rest_append (by decide), blocks_of_lt hlt, rest_of_lt hlt,
        List.append_nil, h.out, List.append_assoc]
    · rw [h.len, List.length_append, BitVec.ofNat_add]
  -- the block is full: it is encrypted, and what follows begins with a new one
  set k := 16 - d.length % 16 with hk
  have htake : (m.take k).length = k := List.length_take_of_le (by omega)
  have hblock : (rest 16 d ++ m.take k).length = 16 := by
    rw [List.length_append, hlen, htake]
    omega
  have hout : (s.out ++ m.take k).length - 16 = (blocks 16 d).flatten.length := by
    rw [List.length_append, h.length_out, htake, length_flatten_blocks]
    omega
  have hfull : Processed key iv (d ++ m.take k)
      { ctr := splice s.ctr 12 (storeBigEndian (s.counter + 1)),
        out := (s.out ++ m.take k).take ((s.out ++ m.take k).length - 16)
          ++ xorStream (byteAt (encryptSW key s.ctr))
            ((s.out ++ m.take k).drop ((s.out ++ m.take k).length - 16)),
        len := s.len + BitVec.ofNat 32 k } := by
    refine ⟨?_, ?_, ?_⟩
    · have hnext : s.counter + 1
          = loadBigEndian iv 12 + BitVec.ofNat 32 (d.length / 16 + 1) := by
        rw [Ctr.counter, h.ctr, counter_counterBlock hiv, counter_succ]
      have hdiv : (d ++ m.take k).length / 16 = d.length / 16 + 1 := by
        rw [List.length_append, htake]
        omega
      rw [hnext, h.ctr, splice_counterBlock hiv, hdiv]
    · have hl : (xorStream (ctrStream key iv) (blocks 16 d).flatten).length
          = (blocks 16 d).flatten.length := length_xorStream _ _
      rw [hout, h.out, List.append_assoc, List.take_left' hl, List.drop_left' hl, h.ctr,
        xorStream_block _ hblock.le, blocks_append (by decide), rest_append (by decide),
        blocks_block (by decide) hblock, rest_block (by decide) hblock, List.append_nil,
        List.flatten_append, List.flatten_singleton,
        xorStream_append _ (blocks 16 d).flatten, length_flatten_blocks]
    · have hlength : (d ++ m.take k).length = d.length + k := by
        rw [List.length_append, htake]
      rw [hlength, BitVec.ofNat_add, ← h.len]
  have hnone : rest 16 (d ++ m.take k) = [] := by
    rw [rest_append (by decide), rest_block (by decide) hblock]
  have hsplit : d ++ m.take k ++ m.drop k = d ++ m := by
    rw [List.append_assoc, List.take_append_drop]
  have := hfull.cryptRest hiv hnone aligned (m := m.drop k) (by rwa [hsplit])
  rw [if_neg hshort]
  rwa [hsplit] at this

/-- The last bytes. -/
theorem Processed.finish (h : Processed key iv d s) (hroom : d.length < 2 ^ 32) :
    s.finish key = xorStream (ctrStream key iv) d := by
  have hsplit := flatten_blocks_append_rest (n := 16) (by decide) d
  have hl : (xorStream (ctrStream key iv) (blocks 16 d).flatten).length
      = 16 * (d.length / 16) := by
    rw [length_xorStream, length_flatten_blocks]
  have hlen := length_rest 16 d
  rw [Ctr.finish, h.toNat_len hroom]
  dsimp only
  split_ifs with hd
  · have hnil : rest 16 d = [] := List.eq_nil_of_length_eq_zero (by rw [hlen, hd])
    rw [hnil, List.append_nil] at hsplit
    rw [h.out, hnil, List.append_nil, hsplit]
  · have hwhole : d.length - d.length % 16 = 16 * (d.length / 16) := by omega
    have hend : 16 * (d.length / 16) + d.length % 16 = s.out.length := by
      rw [h.length_out]
      omega
    rw [hwhole, splice_last hend, h.out, List.take_left' hl, List.drop_left' hl, h.ctr,
      xorStream_block _ (length_rest_lt (by decide) d).le]
    conv_rhs => rw [← hsplit]
    rw [xorStream_append, length_flatten_blocks]

theorem Processed.pieces (hiv : iv.length = 16) (h : Processed key iv d s)
    {pieces : List (Bool × Bytes)}
    (hroom : (d ++ (pieces.map Prod.snd).flatten).length < 2 ^ 32) :
    Processed key iv (d ++ (pieces.map Prod.snd).flatten)
      (pieces.foldl (fun s p => s.crypt p.1 key p.2) s) := by
  induction pieces generalizing d s with
  | nil => simpa using h
  | cons p pieces ih =>
      rw [List.map_cons, List.flatten_cons, ← List.append_assoc] at hroom ⊢
      refine ih (h.crypt hiv p.1 ?_) hroom
      rw [List.length_append] at hroom
      omega

theorem ctr_stream (key : Bytes) (hiv : iv.length = 16) {pieces : List (Bool × Bytes)}
    (hroom : (pieces.map Prod.snd).flatten.length < 2 ^ 32) :
    (pieces.foldl (fun s p => s.crypt p.1 key p.2) (Ctr.init iv)).finish key
      = xorStream (ctrStream key iv) (pieces.map Prod.snd).flatten := by
  have hempty : ([] ++ (pieces.map Prod.snd).flatten).length < 2 ^ 32 := by
    rwa [List.nil_append]
  have h := (Processed.init key hiv).pieces hiv hempty
  rw [List.nil_append] at h
  exact h.finish hroom

/-- **The output is the input under the keystream**, however it was cut into pieces, and whichever of
them were aligned, if they have fewer than `2 ^ 32` bytes together; so ciphertext in other pieces is
decrypted to the plaintext. -/
theorem ctr_pieces (key : Bytes) (hiv : iv.length = 16) {pieces pieces' : List (Bool × Bytes)}
    (hroom : (pieces.map Prod.snd).flatten.length < 2 ^ 32)
    (h : (pieces'.map Prod.snd).flatten
      = (pieces.foldl (fun s p => s.crypt p.1 key p.2) (Ctr.init iv)).finish key) :
    (pieces'.map Prod.snd).flatten = xorStream (ctrStream key iv) (pieces.map Prod.snd).flatten ∧
      (pieces'.foldl (fun s p => s.crypt p.1 key p.2) (Ctr.init iv)).finish key
        = (pieces.map Prod.snd).flatten := by
  rw [ctr_stream key hiv hroom] at h
  have hroom' : (pieces'.map Prod.snd).flatten.length < 2 ^ 32 := by
    rwa [h, length_xorStream]
  exact ⟨h, by rw [ctr_stream key hiv hroom', h, xorStream_xorStream]⟩

/-- Twenty bytes at once, and their ciphertext in two pieces. -/
theorem ctr_pieces_twenty :
    let key : Bytes := List.replicate 32 1
    let iv : Bytes := List.replicate 16 255
    let c := ((Ctr.init iv).crypt true key (List.replicate 20 7)).finish key
    (((Ctr.init iv).crypt false key (c.take 3)).crypt true key (c.drop 3)).finish key
      = List.replicate 20 7 := by
  intro key iv c
  have hpieces : ([(false, c.take 3), (true, c.drop 3)].map Prod.snd).flatten
      = ([(true, List.replicate 20 7)].foldl (fun s p => s.crypt p.1 key p.2) (Ctr.init iv)).finish
        key := by
    show c.take 3 ++ (c.drop 3 ++ []) = c
    rw [List.append_nil, List.take_append_drop]
  have h := ctr_pieces key (show iv.length = 16 from rfl) (by decide) hpieces
  exact h.2

end

end Aes

end ZGalaxy
