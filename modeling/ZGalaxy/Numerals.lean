/-
ZGalaxy/Numerals.lean

Numbers as text.

A number is written with a fixed count of hexadecimal digits (`hex`) or with as many decimal digits
as it needs (`decimal`), and `strtoull` reads both back (`strtoull_hex`, `strtoull_decimal`).  The
argument is the same: what is written has digits only, so that nothing of it is a blank, a sign or
the `0x` of a base, and the last digit of a row is its value modulo the base (`digits_concat`).

`unhex` reads bytes, two digits each, from a text that may have anything else in it.
-/
import Mathlib.Data.Nat.Basic
import Mathlib.Data.Nat.Digits.Defs
import ZGalaxy.Bytes
import ZGalaxy.Json

namespace CString

open ByteList

/-! ### Writing -/

/-- The `n` last hexadecimal digits of a number, `HEXCHARS`. -/
def hexDigits : ℕ → ℕ → List Char
  | 0, _ => []
  | n + 1, v => hexDigits n (v / 16) ++ [Nat.digitChar (v % 16)]

/-- A number in hexadecimal, as `%.nx` and `Utils::hex` write it. -/
def hex (n v : ℕ) : String := String.ofList (hexDigits n v)

/-- The decimal digits of a number. -/
def decimalDigits (v : ℕ) : List Char :=
  if v < 10 then [Nat.digitChar v] else decimalDigits (v / 10) ++ [Nat.digitChar (v % 10)]
decreasing_by omega

/-- `Utils::decimal`. -/
def decimal (v : ℕ) : String := String.ofList (decimalDigits v)

/-! ### Reading -/

/-- What a character stands for in `Utils::unhex`, which takes everything else for zero. -/
def hexValue (c : Char) : ℕ := if digit c < 16 then digit c else 0

/-- `Utils::unhex`: at most `n` bytes of two digits each.  A null ends the text. -/
def unhex : ℕ → List Char → Bytes
  | n + 1, a :: b :: s =>
      if a = '\x00' ∨ b = '\x00' then [] else UInt8.ofNat (hexValue a * 16 + hexValue b) :: unhex n s
  | _, _ => []

/-- All characters are digits of a base. -/
def AllDigits (base : ℕ) (s : List Char) : Prop := ∀ c ∈ s, digit c < base

theorem digit_digitChar : ∀ d < 16, digit (Nat.digitChar d) = d := by decide

theorem mem_hexDigits {n v : ℕ} {c : Char} (h : c ∈ hexDigits n v) :
    ∃ d < 16, c = Nat.digitChar d := by
  induction n generalizing v with
  | zero => cases h
  | succ n ih =>
      rcases List.mem_append.mp h with h | h
      · exact ih h
      · exact ⟨v % 16, Nat.mod_lt v (by decide), List.mem_singleton.mp h⟩

theorem allDigits_hexDigits (n v : ℕ) : AllDigits 16 (hexDigits n v) := by
  intro c hc
  obtain ⟨d, hd, rfl⟩ := mem_hexDigits hc
  rw [digit_digitChar d hd]
  exact hd

theorem allDigits_decimalDigits (v : ℕ) : AllDigits 10 (decimalDigits v) := by
  induction v using Nat.strongRecOn with
  | ind v ih =>
      intro c hc
      rw [decimalDigits] at hc
      split_ifs at hc with hv
      · rw [List.mem_singleton.mp hc, digit_digitChar v (by omega)]
        exact hv
      · rcases List.mem_append.mp hc with hc | hc
        · exact ih (v / 10) (by omega) c hc
        · rw [List.mem_singleton.mp hc, digit_digitChar _ (by omega)]
          exact Nat.mod_lt v (by decide)

theorem digits_append {base n : ℕ} {s t : List Char} (hs : AllDigits base s) :
    digits base n (s ++ t) = digits base (digits base n s) t := by
  induction s generalizing n with
  | nil => rfl
  | cons c s ih =>
      rw [List.cons_append, digits, digits, if_pos (hs c List.mem_cons_self),
        if_pos (hs c List.mem_cons_self), ih fun c' hc' => hs c' (List.mem_cons_of_mem c hc')]

/-- The last digit is the value modulo the base. -/
theorem digits_concat {base n : ℕ} {s : List Char} {c : Char} (hs : AllDigits base s)
    (hc : digit c < base) : digits base n (s ++ [c]) = digits base n s * base + digit c := by
  rw [digits_append hs, digits, if_pos hc, digits]

theorem digits_hexDigits (n v : ℕ) : digits 16 0 (hexDigits n v) = v % 16 ^ n := by
  induction n generalizing v with
  | zero => rw [hexDigits, digits, pow_zero, Nat.mod_one]
  | succ n ih =>
      have hlast := Nat.mod_lt v (show 16 > 0 by decide)
      rw [hexDigits, digits_concat (allDigits_hexDigits n _) (by rwa [digit_digitChar _ hlast]), ih,
        digit_digitChar _ hlast, pow_succ, Nat.mul_comm (16 ^ n), Nat.mod_mul]
      omega

theorem digits_decimalDigits (v : ℕ) : digits 10 0 (decimalDigits v) = v := by
  induction v using Nat.strongRecOn with
  | ind v ih =>
      rw [decimalDigits]
      split_ifs with hv
      · rw [digits, digit_digitChar v (by omega), if_pos hv, digits, Nat.zero_mul, Nat.zero_add]
      · have hlast : digit (Nat.digitChar (v % 10)) = v % 10 := digit_digitChar _ (by omega)
        rw [digits_concat (allDigits_decimalDigits _) (by omega), ih (v / 10) (by omega), hlast]
        omega

/-- Digits begin at `0`. -/
theorem le_of_digit {c : Char} (h : digit c < 36) : 48 ≤ c.toNat := by
  unfold digit at h
  split_ifs at h with h0 ha hA
  · exact UInt32.le_iff_toNat_le.mp h0.1
  · have hle : 97 ≤ c.toNat := UInt32.le_iff_toNat_le.mp ha.1
    omega
  · have hle : 65 ≤ c.toNat := UInt32.le_iff_toNat_le.mp hA.1
    omega
  · omega

/-- No digit is a blank. -/
theorem not_space_of_digit {c : Char} (h : digit c < 36) : isSpace c = false := by
  have hle := le_of_digit h
  have hblank : c ≠ ' ' := by
    rintro rfl
    exact absurd hle (by decide)
  unfold isSpace
  rw [Bool.or_eq_false_iff, beq_eq_false_iff_ne, Bool.and_eq_false_iff]
  refine ⟨hblank, .inr (decide_eq_false ?_)⟩
  omega

theorem ne_of_digit {base : ℕ} {c x : Char} (h : digit c < base) (hx : base ≤ digit x) : c ≠ x := by
  rintro rfl
  omega

/-- **A text of digits** is the number that the digits write. -/
theorem strtoull_of_digits {base : ℕ} (hbase : base ≤ 16) {s : List Char} (hs : AllDigits base s)
    (hsize : digits base 0 s < UInt64.size) :
    strtoull base (String.ofList s) = UInt64.ofNat (digits base 0 s) := by
  have hdigit : ∀ c ∈ s, digit c < 16 := fun c hc => (hs c hc).trans_le hbase
  have hspace : s.dropWhile isSpace = s := by
    cases s with
    | nil => rfl
    | cons c s =>
        refine List.dropWhile_cons_of_neg ?_
        rw [not_space_of_digit ((hdigit c List.mem_cons_self).trans (by decide))]
        exact Bool.false_ne_true
  have hsign : sign s = (false, s) := by
    unfold sign
    split
    · exact absurd rfl (ne_of_digit (hdigit '-' List.mem_cons_self) (by decide))
    · exact absurd rfl (ne_of_digit (hdigit '+' List.mem_cons_self) (by decide))
    · rfl
  have hskip : skipBase base s = s := by
    unfold skipBase
    split
    · rename_i x c t
      have hmem : x ∈ '0' :: x :: c :: t := List.mem_cons_of_mem _ List.mem_cons_self
      refine if_neg ?_
      rintro ⟨-, rfl | rfl, -⟩
      · exact ne_of_digit (hdigit 'x' hmem) (by decide) rfl
      · exact ne_of_digit (hdigit 'X' hmem) (by decide) rfl
    · rfl
  unfold strtoull
  rw [String.toList_ofList, hspace, hsign]
  dsimp only
  rw [hskip, if_neg (by omega), if_neg Bool.false_ne_true]

/-- **Hexadecimal digits** are read back. -/
theorem strtoull_hex {n v : ℕ} (hn : n ≤ 16) (hv : v < 16 ^ n) :
    strtoull 16 (hex n v) = UInt64.ofNat v := by
  have hdigits : digits 16 0 (hexDigits n v) = v := by
    rw [digits_hexDigits, Nat.mod_eq_of_lt hv]
  have hsize : v < UInt64.size := hv.trans_le (Nat.pow_le_pow_right (by decide) hn)
  rw [hex, strtoull_of_digits le_rfl (allDigits_hexDigits n v) (by rwa [hdigits]), hdigits]

/-- **Decimal digits** are read back. -/
theorem strtoull_decimal {v : ℕ} (hv : v < UInt64.size) :
    strtoull 10 (decimal v) = UInt64.ofNat v := by
  have hdigits := digits_decimalDigits v
  rw [decimal, strtoull_of_digits (by decide) (allDigits_decimalDigits v)
    (by rwa [hdigits]), hdigits]

/-- A byte is read back from its two digits. -/
theorem unhex_hexDigits (n : ℕ) (b : UInt8) (s : List Char) :
    unhex (n + 1) (hexDigits 2 b.toNat ++ s) = b :: unhex n s := by
  have hb := b.toNat_lt
  have hhigh := Nat.mod_lt (b.toNat / 16) (show 16 > 0 by decide)
  have hlow := Nat.mod_lt b.toNat (show 16 > 0 by decide)
  have hnull : ∀ d < 16, Nat.digitChar d ≠ '\x00' := by decide
  have hvalue : ∀ d < 16, hexValue (Nat.digitChar d) = d := by decide
  have hlist : hexDigits 2 b.toNat ++ s
      = Nat.digitChar (b.toNat / 16 % 16) :: Nat.digitChar (b.toNat % 16) :: s := rfl
  rw [hlist, unhex, if_neg (not_or.mpr ⟨hnull _ hhigh, hnull _ hlow⟩), hvalue _ hhigh,
    hvalue _ hlow]
  have heq : b.toNat / 16 % 16 * 16 + b.toNat % 16 = b.toNat := by omega
  rw [heq, UInt8.ofNat_toNat]

/-- Bytes are read back from their digits. -/
theorem unhex_flatMap (b : Bytes) :
    unhex b.length (b.flatMap fun x => hexDigits 2 x.toNat) = b := by
  induction b with
  | nil => rfl
  | cons x b ih => rw [List.length_cons, List.flatMap_cons, unhex_hexDigits, ih]

/-- What stands in a row of texts with a separator between them. -/
theorem mem_intercalate {x c : Char} {l : List (List Char)} (h : c ∈ List.intercalate [x] l) :
    c = x ∨ ∃ s ∈ l, c ∈ s := by
  induction l with
  | nil => cases h
  | cons s l ih =>
      cases l with
      | nil =>
          rw [List.intercalate_singleton] at h
          exact .inr ⟨s, List.mem_cons_self, h⟩
      | cons t l =>
          rw [List.intercalate_cons_cons] at h
          rcases List.mem_append.mp h with h | h
          · rcases List.mem_append.mp h with h | h
            · exact .inr ⟨s, List.mem_cons_self, h⟩
            · exact .inl (List.mem_singleton.mp h)
          · rcases ih h with h | ⟨u, hu, hc⟩
            · exact .inl h
            · exact .inr ⟨u, List.mem_cons_of_mem s hu, hc⟩

end CString
