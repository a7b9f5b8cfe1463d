/-
ZGalaxy/Rijndael.lean

The block cipher AES as its standard describes it: bytes as elements of a field of 256 elements, the
S-box as an inverse and an affine map, and the state as four columns of four bytes.

A round substitutes the bytes, turns the rows, mixes the columns and adds a round key; the last round
does not mix.  Each of these steps has an inverse.  That of the substitution is checked byte by byte,
as is the table of the inverses that the substitution takes (`mul_inverse`).
That of the mixing follows from linearity: `Column.mix` and `Column.invMix` are additive and commute
with turning a column, so that their composite need only be checked on columns with one byte
(`Column.invMix_mix`).

Main results: `decipher_cipher`, for any number of rounds and any round keys, and
`equivalentDecipher_eq`: deciphering with the steps in the order of enciphering, under round keys that
were mixed backwards, is deciphering.
-/
import Mathlib.Data.BitVec
import Mathlib.Logic.Function.Iterate

namespace Rijndael

/-! ### The field -/

/-- A byte as a polynomial over two elements. -/
abbrev Byte := BitVec 8

/-- The product with `x` modulo `x ^ 8 + x ^ 4 + x ^ 3 + x + 1`. -/
def xtime (a : Byte) : Byte := (a <<< 1) ^^^ if a.msb then 0x1b#8 else 0#8

/-- The product of two bytes. -/
def mul (a b : Byte) : Byte :=
  (List.range 8).foldr (fun i acc => xtime acc ^^^ if b.getLsbD i then a else 0#8) 0#8

/-- The inverses of all bytes in order, and zero for zero. -/
def inverses : List Byte := [
  0x00, 0x01, 0x8d, 0xf6, 0xcb, 0x52, 0x7b, 0xd1, 0xe8, 0x4f, 0x29, 0xc0, 0xb0, 0xe1, 0xe5, 0xc7,
  0x74, 0xb4, 0xaa, 0x4b, 0x99, 0x2b, 0x60, 0x5f, 0x58, 0x3f, 0xfd, 0xcc, 0xff, 0x40, 0xee, 0xb2,
  0x3a, 0x6e, 0x5a, 0xf1, 0x55, 0x4d, 0xa8, 0xc9, 0xc1, 0x0a, 0x98, 0x15, 0x30, 0x44, 0xa2, 0xc2,
  0x2c, 0x45, 0x92, 0x6c, 0xf3, 0x39, 0x66, 0x42, 0xf2, 0x35, 0x20, 0x6f, 0x77, 0xbb, 0x59, 0x19,
  0x1d, 0xfe, 0x37, 0x67, 0x2d, 0x31, 0xf5, 0x69, 0xa7, 0x64, 0xab, 0x13, 0x54, 0x25, 0xe9, 0x09,
  0xed, 0x5c, 0x05, 0xca, 0x4c, 0x24, 0x87, 0xbf, 0x18, 0x3e, 0x22, 0xf0, 0x51, 0xec, 0x61, 0x17,
  0x16, 0x5e, 0xaf, 0xd3, 0x49, 0xa6, 0x36, 0x43, 0xf4, 0x47, 0x91, 0xdf, 0x33, 0x93, 0x21, 0x3b,
  0x79, 0xb7, 0x97, 0x85, 0x10, 0xb5, 0xba, 0x3c, 0xb6, 0x70, 0xd0, 0x06, 0xa1, 0xfa, 0x81, 0x82,
  0x83, 0x7e, 0x7f, 0x80, 0x96, 0x73, 0xbe, 0x56, 0x9b, 0x9e, 0x95, 0xd9, 0xf7, 0x02, 0xb9, 0xa4,
  0xde, 0x6a, 0x32, 0x6d, 0xd8, 0x8a, 0x84, 0x72, 0x2a, 0x14, 0x9f, 0x88, 0xf9, 0xdc, 0x89, 0x9a,
  0xfb, 0x7c, 0x2e, 0xc3, 0x8f, 0xb8, 0x65, 0x48, 0x26, 0xc8, 0x12, 0x4a, 0xce, 0xe7, 0xd2, 0x62,
  0x0c, 0xe0, 0x1f, 0xef, 0x11, 0x75, 0x78, 0x71, 0xa5, 0x8e, 0x76, 0x3d, 0xbd, 0xbc, 0x86, 0x57,
  0x0b, 0x28, 0x2f, 0xa3, 0xda, 0xd4, 0xe4, 0x0f, 0xa9, 0x27, 0x53, 0x04, 0x1b, 0xfc, 0xac, 0xe6,
  0x7a, 0x07, 0xae, 0x63, 0xc5, 0xdb, 0xe2, 0xea, 0x94, 0x8b, 0xc4, 0xd5, 0x9d, 0xf8, 0x90, 0x6b,
  0xb1, 0x0d, 0xd6, 0xeb, 0xc6, 0x0e, 0xcf, 0xad, 0x08, 0x4e, 0xd7, 0xe3, 0x5d, 0x50, 0x1e, 0xb3,
  0x5b, 0x23, 0x38, 0x34, 0x68, 0x46, 0x03, 0x8c, 0xdd, 0x9c, 0x7d, 0xa0, 0xcd, 0x1a, 0x41, 0x1c]

/-- The inverse of a byte, and zero for zero. -/
def inverse (a : Byte) : Byte := inverses.getD a.toNat 0#8

theorem mul_inverse {a : Byte} (h : a ≠ 0#8) : mul a (inverse a) = 1#8 := by
  revert a
  decide +kernel

/-- The affine map of the S-box. -/
def affine (a : Byte) : Byte :=
  a ^^^ a.rotateLeft 1 ^^^ a.rotateLeft 2 ^^^ a.rotateLeft 3 ^^^ a.rotateLeft 4 ^^^ 0x63#8

/-- The S-box. -/
def sub (a : Byte) : Byte := affine (inverse a)

/-- The inverse of the affine map. -/
def invAffine (a : Byte) : Byte :=
  a.rotateLeft 1 ^^^ a.rotateLeft 3 ^^^ a.rotateLeft 6 ^^^ 0x05#8

/-- The inverse of the S-box. -/
def invSub (a : Byte) : Byte := inverse (invAffine a)

theorem invSub_sub (a : Byte) : invSub (sub a) = a := by
  revert a
  decide +kernel

theorem sub_invSub (a : Byte) : sub (invSub a) = a := by
  revert a
  decide +kernel

theorem xtime_xor (a b : Byte) : xtime (a ^^^ b) = xtime a ^^^ xtime b := by
  have hmsb : (a ^^^ b).msb = (a.msb ^^ b.msb) := BitVec.msb_xor
  have hmask : (if (a ^^^ b).msb then 0x1b#8 else 0#8)
      = (if a.msb then 0x1b#8 else 0#8) ^^^ if b.msb then 0x1b#8 else 0#8 := by
    rw [hmsb]
    cases a.msb <;> cases b.msb <;> rfl
  rw [xtime, hmask, BitVec.shiftLeft_xor_distrib, xtime, xtime]
  ac_rfl

/-! ### Columns -/

/-- A column of the state, or a word of the key schedule. -/
@[ext] structure Column where
  b0 : Byte
  b1 : Byte
  b2 : Byte
  b3 : Byte
  deriving DecidableEq

namespace Column

/-- The sum of two columns. -/
def add (c d : Column) : Column := ⟨c.b0 ^^^ d.b0, c.b1 ^^^ d.b1, c.b2 ^^^ d.b2, c.b3 ^^^ d.b3⟩

/-- `RotWord`: the column turned by one byte. -/
def turn (c : Column) : Column := ⟨c.b1, c.b2, c.b3, c.b0⟩

/-- `SubWord`. -/
def map (f : Byte → Byte) (c : Column) : Column := ⟨f c.b0, f c.b1, f c.b2, f c.b3⟩

/-- The product with a column of coefficients, of which the first is that of the byte itself. -/
def mixWith (f0 f1 f2 f3 : Byte → Byte) (c : Column) : Column :=
  ⟨f0 c.b0 ^^^ f1 c.b1 ^^^ f2 c.b2 ^^^ f3 c.b3, f3 c.b0 ^^^ f0 c.b1 ^^^ f1 c.b2 ^^^ f2 c.b3,
    f2 c.b0 ^^^ f3 c.b1 ^^^ f0 c.b2 ^^^ f1 c.b3, f1 c.b0 ^^^ f2 c.b1 ^^^ f3 c.b2 ^^^ f0 c.b3⟩

end Column

/-- `MixColumns` multiplies by 2, 3, 1 and 1. -/
def times2 (a : Byte) : Byte := xtime a

def times3 (a : Byte) : Byte := xtime a ^^^ a

/-- `InvMixColumns` multiplies by 14, 11, 13 and 9. -/
def times9 (a : Byte) : Byte := xtime (xtime (xtime a)) ^^^ a

def times11 (a : Byte) : Byte := xtime (xtime (xtime a)) ^^^ xtime a ^^^ a

def times13 (a : Byte) : Byte := xtime (xtime (xtime a)) ^^^ xtime (xtime a) ^^^ a

def times14 (a : Byte) : Byte := xtime (xtime (xtime a)) ^^^ xtime (xtime a) ^^^ xtime a

namespace Column

/-- `MixColumns` of one column. -/
def mix : Column → Column := mixWith times2 times3 id id

/-- `InvMixColumns` of one column. -/
def invMix : Column → Column := mixWith times14 times11 times13 times9

variable {f0 f1 f2 f3 : Byte → Byte}

/-- Mixing with additive coefficients is additive. -/
theorem mixWith_add (h0 : ∀ a b, f0 (a ^^^ b) = f0 a ^^^ f0 b)
    (h1 : ∀ a b, f1 (a ^^^ b) = f1 a ^^^ f1 b) (h2 : ∀ a b, f2 (a ^^^ b) = f2 a ^^^ f2 b)
    (h3 : ∀ a b, f3 (a ^^^ b) = f3 a ^^^ f3 b) (c d : Column) :
    mixWith f0 f1 f2 f3 (c.add d) = (mixWith f0 f1 f2 f3 c).add (mixWith f0 f1 f2 f3 d) := by
  simp only [mixWith, add, h0, h1, h2, h3, mk.injEq]
  refine ⟨?_, ?_, ?_, ?_⟩ <;> ac_rfl

/-- Mixing commutes with turning a column. -/
theorem mixWith_turn (c : Column) :
    mixWith f0 f1 f2 f3 c.turn = (mixWith f0 f1 f2 f3 c).turn := by
  simp only [mixWith, turn, mk.injEq]
  refine ⟨?_, ?_, ?_, ?_⟩ <;> ac_rfl

theorem mix_add (c d : Column) : (c.add d).mix = c.mix.add d.mix := by
  refine mixWith_add xtime_xor (fun a b => ?_) (fun _ _ => rfl) (fun _ _ => rfl) c d
  simp only [times3, xtime_xor]
  ac_rfl

theorem invMix_add (c d : Column) : (c.add d).invMix = c.invMix.add d.invMix := by
  refine mixWith_add (fun a b => ?_) (fun a b => ?_) (fun a b => ?_) (fun a b => ?_) c d <;>
    simp only [times9, times11, times13, times14, xtime_xor] <;> ac_rfl

/-- A column with one byte. -/
def single (a : Byte) : Column := ⟨a, 0#8, 0#8, 0#8⟩

/-- A column is the sum of its bytes, each turned to its place. -/
theorem eq_add_single (c : Column) :
    c = (single c.b0).add (((single c.b1).turn.turn.turn).add
      (((single c.b2).turn.turn).add (single c.b3).turn)) := by
  simp [single, turn, add]

theorem invMix_mix_single (a : Byte) : (single a).mix.invMix = single a := by
  revert a
  decide +kernel

theorem mix_invMix_single (a : Byte) : (single a).invMix.mix = single a := by
  revert a
  decide +kernel

/-- What is additive, commutes with turning and fixes columns of one byte fixes all columns. -/
theorem eq_of_single {g : Column → Column} (hadd : ∀ c d, g (c.add d) = (g c).add (g d))
    (hturn : ∀ c, g c.turn = (g c).turn) (hsingle : ∀ a, g (single a) = single a) (c : Column) :
    g c = c := by
  conv_lhs => rw [eq_add_single c]
  simp only [hadd, hturn, hsingle]
  exact (eq_add_single c).symm

/-- **Mixing backwards undoes mixing.** -/
theorem invMix_mix (c : Column) : c.mix.invMix = c :=
  eq_of_single (g := fun c => c.mix.invMix) (fun c d => by rw [mix_add, invMix_add])
    (fun c => by simp only [mix, invMix, mixWith_turn]) invMix_mix_single c

theorem mix_invMix (c : Column) : c.invMix.mix = c :=
  eq_of_single (g := fun c => c.invMix.mix) (fun c d => by rw [invMix_add, mix_add])
    (fun c => by simp only [mix, invMix, mixWith_turn]) mix_invMix_single c

theorem add_add_cancel (c d : Column) : (c.add d).add d = c := by
  simp only [add, BitVec.xor_assoc, BitVec.xor_self, BitVec.xor_zero]

end Column

/-! ### The state -/

/-- The state: four columns. -/
@[ext] structure State where
  c0 : Column
  c1 : Column
  c2 : Column
  c3 : Column
  deriving DecidableEq

namespace State

/-- `AddRoundKey`. -/
def add (s k : State) : State := ⟨s.c0.add k.c0, s.c1.add k.c1, s.c2.add k.c2, s.c3.add k.c3⟩

/-- `SubBytes`, and all else that is done to each column. -/
def mapColumns (f : Column → Column) (s : State) : State := ⟨f s.c0, f s.c1, f s.c2, f s.c3⟩

/-- `ShiftRows`: row `r` is turned by `r` columns. -/
def shiftRows (s : State) : State :=
  ⟨⟨s.c0.b0, s.c1.b1, s.c2.b2, s.c3.b3⟩, ⟨s.c1.b0, s.c2.b1, s.c3.b2, s.c0.b3⟩,
    ⟨s.c2.b0, s.c3.b1, s.c0.b2, s.c1.b3⟩, ⟨s.c3.b0, s.c0.b1, s.c1.b2, s.c2.b3⟩⟩

/-- `InvShiftRows`. -/
def invShiftRows (s : State) : State :=
  ⟨⟨s.c0.b0, s.c3.b1, s.c2.b2, s.c1.b3⟩, ⟨s.c1.b0, s.c0.b1, s.c3.b2, s.c2.b3⟩,
    ⟨s.c2.b0, s.c1.b1, s.c0.b2, s.c3.b3⟩, ⟨s.c3.b0, s.c2.b1, s.c1.b2, s.c0.b3⟩⟩

/-- `SubBytes` and `ShiftRows`. -/
def scramble (s : State) : State := (s.mapColumns (Column.map sub)).shiftRows

/-- `InvShiftRows` and `InvSubBytes`. -/
def unscramble (s : State) : State := s.invShiftRows.mapColumns (Column.map invSub)

/-- `MixColumns`. -/
def mix (s : State) : State := s.mapColumns Column.mix

/-- `InvMixColumns`. -/
def invMix (s : State) : State := s.mapColumns Column.invMix

theorem unscramble_scramble (s : State) : s.scramble.unscramble = s := by
  simp only [scramble, unscramble, mapColumns, shiftRows, invShiftRows, Column.map, invSub_sub]

theorem scramble_unscramble (s : State) : s.unscramble.scramble = s := by
  simp only [scramble, unscramble, mapColumns, shiftRows, invShiftRows, Column.map, sub_invSub]

theorem invMix_mix (s : State) : s.mix.invMix = s := by
  simp only [mix, invMix, mapColumns, Column.invMix_mix]

theorem mix_invMix (s : State) : s.invMix.mix = s := by
  simp only [mix, invMix, mapColumns, Column.mix_invMix]

theorem invMix_add (s k : State) : (s.add k).invMix = s.invMix.add k.invMix := by
  simp only [invMix, add, mapColumns, Column.invMix_add]

theorem add_add_cancel (s k : State) : (s.add k).add k = s := by
  simp only [add, Column.add_add_cancel]

end State

/-! ### The cipher -/

/-- A round of the cipher. -/
def cipherRound (s k : State) : State := s.scramble.mix.add k

/-- A round of the inverse cipher. -/
def decipherRound (s k : State) : State := (s.unscramble.add k).invMix

/-- The cipher under a first round key, those of the rounds and that of the last round. -/
def cipher (first : State) (ks : List State) (last : State) (s : State) : State :=
  (ks.foldl cipherRound (s.add first)).scramble.add last

/-- The inverse cipher. -/
def decipher (first : State) (ks : List State) (last : State) (s : State) : State :=
  (ks.reverse.foldl decipherRound (s.add last)).unscramble.add first

theorem decipherRound_cipherRound (s k : State) :
    decipherRound (cipherRound s k).scramble k = s.scramble := by
  rw [decipherRound, State.unscramble_scramble, cipherRound, State.add_add_cancel,
    State.invMix_mix]

theorem cipherRound_decipherRound (s k : State) :
    cipherRound (decipherRound s k).unscramble k = s.unscramble := by
  rw [cipherRound, State.scramble_unscramble, decipherRound, State.mix_invMix,
    State.add_add_cancel]

/-- **The inverse cipher undoes the cipher**, round by round from the last. -/
theorem decipher_cipher (first : State) (ks : List State) (last : State) (s : State) :
    decipher first ks last (cipher first ks last s) = s := by
  have hrounds : ∀ t : State,
      ks.reverse.foldl decipherRound (ks.foldl cipherRound t).scramble = t.scramble := by
    induction ks with
    | nil => exact fun _ => rfl
    | cons k ks ih =>
        intro t
        rw [List.foldl_cons, List.reverse_cons, List.foldl_append, ih, List.foldl_cons,
          List.foldl_nil, decipherRound_cipherRound]
  rw [decipher, cipher, State.add_add_cancel, hrounds, State.unscramble_scramble,
    State.add_add_cancel]

/-- The cipher undoes the inverse cipher. -/
theorem cipher_decipher (first : State) (ks : List State) (last : State) (s : State) :
    cipher first ks last (decipher first ks last s) = s := by
  have hrounds : ∀ t : State,
      ks.foldl cipherRound (ks.reverse.foldl decipherRound t).unscramble = t.unscramble := by
    induction ks with
    | nil => exact fun _ => rfl
    | cons k ks ih =>
        intro t
        simp only [List.reverse_cons, List.foldl_append, List.foldl_cons, List.foldl_nil,
          cipherRound_decipherRound, ih]
  rw [cipher, decipher, State.add_add_cancel, hrounds, State.scramble_unscramble,
    State.add_add_cancel]

/-! ### Deciphering in the order of enciphering -/

/-- A round of the equivalent inverse cipher. -/
def equivalentRound (s k : State) : State := s.unscramble.invMix.add k

/-- The equivalent inverse cipher, with the round keys in the order it takes them. -/
def equivalentDecipher (first : State) (ks : List State) (last : State) (s : State) : State :=
  (ks.foldl equivalentRound (s.add first)).unscramble.add last

/-- **Under round keys that were mixed backwards** the equivalent inverse cipher deciphers. -/
theorem equivalentDecipher_eq (first : State) (ks : List State) (last : State) (s : State) :
    equivalentDecipher last (ks.reverse.map State.invMix) first s = decipher first ks last s := by
  have hround : ∀ s k, equivalentRound s (State.invMix k) = decipherRound s k := fun s k => by
    rw [equivalentRound, decipherRound, State.invMix_add]
  simp only [equivalentDecipher, decipher, List.foldl_map, hround]

/-! ### Keys of eight words -/

/-- What is added to the word eight places back: the previous word, substituted at the fourth of each
eight places, and turned and told apart by a constant as well at the first. -/
def keyCore (i : ℕ) (t : Column) : Column :=
  if i % 8 = 0 then (t.turn.map sub).add (Column.single (xtime^[i / 8 - 1] 1#8))
  else if i % 8 = 4 then t.map sub
  else t

/-- `KeyExpansion`: the words of the key schedule. -/
def keyWord (key : ℕ → Column) (i : ℕ) : Column :=
  if i < 8 then key i else (keyWord key (i - 8)).add (keyCore i (keyWord key (i - 1)))
termination_by i

theorem keyWord_of_lt (key : ℕ → Column) {i : ℕ} (h : i < 8) : keyWord key i = key i := by
  rw [keyWord, if_pos h]

theorem keyWord_add (key : ℕ → Column) (i : ℕ) :
    keyWord key (i + 8) = (keyWord key i).add (keyCore (i + 8) (keyWord key (i + 7))) := by
  rw [keyWord, if_neg (by omega), Nat.add_sub_cancel]
  rfl

/-- The key of round `r`. -/
def roundKey (key : ℕ → Column) (r : ℕ) : State :=
  ⟨keyWord key (4 * r), keyWord key (4 * r + 1), keyWord key (4 * r + 2), keyWord key (4 * r + 3)⟩

/-- The keys of the rounds that mix. -/
def middleKeys (key : ℕ → Column) : List State := (List.range 13).map fun r => roundKey key (r + 1)

/-- AES with a key of 256 bits. -/
def aes256 (key : ℕ → Column) : State → State :=
  cipher (roundKey key 0) (middleKeys key) (roundKey key 14)

/-- Its inverse. -/
def invAes256 (key : ℕ → Column) : State → State :=
  decipher (roundKey key 0) (middleKeys key) (roundKey key 14)

theorem invAes256_aes256 (key : ℕ → Column) (s : State) : invAes256 key (aes256 key s) = s :=
  decipher_cipher _ _ _ s

theorem aes256_invAes256 (key : ℕ → Column) (s : State) : aes256 key (invAes256 key s) = s :=
  cipher_decipher _ _ _ s

end Rijndael
