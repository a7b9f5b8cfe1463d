/-
ZGalaxy/Json.lean

JSON values, and numbers read from text.

A number is kept as a signed integer, as an unsigned one or, written with a fraction or an exponent,
in double precision.  The members of an object stand in the order of its map.  Reading a member
that is not there gives null.
-/
import ZGalaxy.Binary64

/-- A JSON value. -/
inductive Json
  | null
  | boolean (b : Bool)
  | integer (i : Int64)
  | unsigned (u : UInt64)
  | real (x : Binary64)
  | string (s : String)
  | array (l : List Json)
  | object (l : List (String × Json))

namespace Json

/-- The members of an object. -/
def members : Json → List (String × Json)
  | object l => l
  | _ => []

def isObject : Json → Bool
  | object _ => true
  | _ => false

/-- The member of an object with a name. -/
def get (j : Json) (name : String) : Json :=
  ((j.members.find? fun m => m.1 == name).map Prod.snd).getD null

end Json

namespace CString

/-! ### Numbers -/

/-- `isspace`. -/
def isSpace (c : Char) : Bool := c == ' ' || (9 ≤ c.toNat && c.toNat ≤ 13)

/-- What a digit stands for in some base up to 36. -/
def digit (c : Char) : ℕ :=
  if '0' ≤ c ∧ c ≤ '9' then c.toNat - '0'.toNat
  else if 'a' ≤ c ∧ c ≤ 'z' then c.toNat - 'a'.toNat + 10
  else if 'A' ≤ c ∧ c ≤ 'Z' then c.toNat - 'A'.toNat + 10
  else 36

/-- The number that a row of characters begins with. -/
def digits (base : ℕ) (n : ℕ) : List Char → ℕ
  | [] => n
  | c :: s => if digit c < base then digits base (n * base + digit c) s else n

/-- The sign that a row of characters begins with, and what follows it. -/
def sign : List Char → Bool × List Char
  | '-' :: s => (true, s)
  | '+' :: s => (false, s)
  | s => (false, s)

/-- In base 16 digits may begin with `0x`. -/
def skipBase (base : ℕ) : List Char → List Char
  | '0' :: x :: c :: s =>
      if base = 16 ∧ (x = 'x' ∨ x = 'X') ∧ digit c < 16 then c :: s else '0' :: x :: c :: s
  | s => s

/-- `strtoull`: the number that a text begins with, after blanks and a sign.  What is too large
becomes the largest number, what is negative its complement. -/
def strtoull (base : ℕ) (s : String) : UInt64 :=
  let signed := sign (s.toList.dropWhile isSpace)
  let n := digits base 0 (skipBase base signed.2)
  if UInt64.size ≤ n then UInt64.ofNat (UInt64.size - 1)
  else if signed.1 then -UInt64.ofNat n
  else UInt64.ofNat n

end CString
