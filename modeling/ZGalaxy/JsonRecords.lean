/-
ZGalaxy/JsonRecords.lean

Records that are JSON objects.

A record is read by the names of its fields, and what is read is made a number, a truth value or a
text whatever its type is (`jsonIntHex`, `jsonBool`, `jsonString`).  Writing a field leaves the
others (`get_set`).  What the library takes for equal (`eqv`) need not be the same: between numbers
of two kinds one is converted first, and then others are equal to it as well.
-/
import Mathlib.Data.String.Basic
import ZGalaxy.PhysicalPaths

namespace Json

/-! ### Values -/

/-- `operator==` of two numbers: a signed integer is compared with an unsigned one as a signed one,
and any integer with a fraction in double precision. -/
def numberEqv : Json → Json → Bool
  | integer i, integer j => i == j
  | unsigned u, unsigned v => u == v
  | real x, real y => x == y
  | integer i, real y => i.toBinary64 == y
  | real x, integer j => x == j.toBinary64
  | unsigned u, real y => u.toBinary64 == y
  | real x, unsigned v => x == v.toBinary64
  | unsigned u, integer j => u.toInt64 == j
  | integer i, unsigned v => i == v.toInt64
  | _, _ => false

mutual

/-- `operator==`. -/
def eqv : Json → Json → Bool
  | null, null => true
  | boolean a, boolean b => a == b
  | string s, string t => s == t
  | array l, array m => eqvList l m
  | object l, object m => eqvMembers l m
  | a, b => numberEqv a b

/-- `operator==` of the elements of two arrays. -/
def eqvList : List Json → List Json → Bool
  | [], [] => true
  | a :: l, b :: m => eqv a b && eqvList l m
  | _, _ => false

/-- `operator==` of the members of two objects. -/
def eqvMembers : List (String × Json) → List (String × Json) → Bool
  | [], [] => true
  | (k, a) :: l, (k', b) :: m => k == k' && eqv a b && eqvMembers l m
  | _, _ => false

end

mutual

theorem eqv_refl : ∀ a : Json, eqv a a = true
  | null => rfl
  | boolean b => beq_self_eq_true b
  | integer i => beq_self_eq_true i
  | unsigned u => beq_self_eq_true u
  | real x => beq_self_eq_true x
  | string s => beq_self_eq_true s
  | array l => eqvList_refl l
  | object l => eqvMembers_refl l

theorem eqvList_refl : ∀ l : List Json, eqvList l l = true
  | [] => rfl
  | a :: l => by
      rw [eqvList, eqv_refl a, eqvList_refl l]
      rfl

theorem eqvMembers_refl : ∀ l : List (String × Json), eqvMembers l l = true
  | [] => rfl
  | (k, a) :: l => by
      rw [eqvMembers, eqv_refl a, eqvMembers_refl l, beq_self_eq_true]
      rfl

end

/-! ### Fields -/

/-- The order of the names in an object. -/
def nameLt (a b : String) : Bool := a < b

/-- `j[name] = v`, for an object or for null, which becomes one. -/
def set (j : Json) (name : String) (v : Json) : Json :=
  object (SortedMap.set nameLt name v j.members)

/-- `j.erase(name)`, for an object. -/
def erase (j : Json) (name : String) : Json := object (SortedMap.erase name j.members)

/-- `j.contains(name)`. -/
def contains (j : Json) (name : String) : Bool := (SortedMap.get name j.members).isSome

theorem get_eq (j : Json) (name : String) :
    j.get name = (SortedMap.get name j.members).getD null := rfl

@[simp] theorem isObject_set (j : Json) (name : String) (v : Json) :
    (j.set name v).isObject = true := rfl

@[simp] theorem isEmpty_set (j : Json) (name : String) (v : Json) :
    (j.set name v).members.isEmpty = false := SortedMap.isEmpty_modify _ _ _ _ _

@[simp] theorem get_object_nil (name : String) : (object []).get name = null := rfl

/-- Writing a field leaves the others. -/
theorem get_set (j : Json) (name name' : String) (v : Json) :
    (j.set name v).get name' = if name' = name then v else j.get name' := by
  rw [get_eq, get_eq]
  show (SortedMap.get name' (SortedMap.set nameLt name v j.members)).getD null = _
  rw [SortedMap.get_set]
  split_ifs
  · rfl
  · rfl

theorem get_set_of_ne {j : Json} {name name' : String} {v : Json} (h : name' ≠ name) :
    (j.set name v).get name' = j.get name' := by
  rw [get_set, if_neg h]

theorem contains_set (j : Json) (name name' : String) (v : Json) :
    (j.set name v).contains name' = (decide (name' = name) || j.contains name') := by
  unfold contains
  have hget : SortedMap.get name' (j.set name v).members
      = if name' = name then some v else SortedMap.get name' j.members := SortedMap.get_set _ _ _ _ _
  rw [hget]
  by_cases h : name' = name
  · rw [if_pos h, decide_eq_true h]
    rfl
  · rw [if_neg h, decide_eq_false h]
    rfl

/-- The text of a string. -/
def text : Json → Option String
  | string s => some s
  | _ => none

/-- The elements of an array. -/
def elements : Json → List Json
  | array l => l
  | _ => []

def isNull : Json → Bool
  | null => true
  | _ => false

def isArray : Json → Bool
  | array _ => true
  | _ => false

def isNumber : Json → Bool
  | integer _ => true
  | unsigned _ => true
  | real _ => true
  | _ => false

end Json

namespace ZGalaxy

/-! ### Reading values -/

/-- `OSUtils::jsonIntHex`. -/
def jsonIntHex (jv : Json) (dfl : UInt64) : UInt64 :=
  match jv with
  | .string s => CString.strtoull 16 s
  | jv => jsonInt jv dfl

theorem jsonIntHex_of_text {jv : Json} {s : String} (h : jv.text = some s) (dfl : UInt64) :
    jsonIntHex jv dfl = CString.strtoull 16 s := by
  cases jv with
  | string t =>
      cases h
      rfl
  | _ => cases h

/-- `OSUtils::jsonBool`. -/
def jsonBool (jv : Json) (dfl : Bool) : Bool :=
  match jv with
  | .boolean b => b
  | .integer _ => 0 < jsonInt jv 0
  | .unsigned _ => 0 < jsonInt jv 0
  | .real _ => 0 < jsonInt jv 0
  | .string s => s.toList.head?.any fun c => c == 't' || c == 'T' || c == '1'
  | _ => dfl

/-- `OSUtils::jsonString`. -/
def jsonString (jv : Json) (dfl : String) : String :=
  match jv with
  | .string s => s
  | .integer _ => toString (jsonInt jv 0)
  | .unsigned _ => toString (jsonInt jv 0)
  | .real _ => toString (jsonInt jv 0)
  | .boolean b => if b then "1" else "0"
  | _ => dfl

@[simp] theorem jsonString_string (s dfl : String) : jsonString (.string s) dfl = s := rfl

@[simp] theorem jsonString_null (dfl : String) : jsonString .null dfl = dfl := rfl

@[simp] theorem jsonBool_boolean (b dfl : Bool) : jsonBool (.boolean b) dfl = b := rfl

@[simp] theorem jsonBool_null (dfl : Bool) : jsonBool .null dfl = dfl := rfl

end ZGalaxy
