/-
ZGalaxy/JsonEquality.lean

Equality of JSON values.

Values are the same if they say the same, whatever their numbers are kept as (`Same`): this is an
equivalence, and whatever is read from the one is read from the other.  The library takes such
values for equal (`eqv_of_same`), but not only those.  Of two kinds of numbers one is converted
first, which loses the last digits of an integer beyond 2^53 and the sign of a negative one, and so
what it takes for equal to one value need not be equal to each other.

Main results: `eqv_of_same`, and `same_of_eqv`, its converse for values whose integers double
precision writes with all their digits; `compareRecords_of_same`, a record compares as the same with
a value that says the same.
-/
import Mathlib.Tactic.NormNum
import ZGalaxy.DBIndex

namespace Json

/-! ### What a value says -/

/-- What a value says: a number is a number. -/
inductive Meaning
  | null
  | boolean (b : Bool)
  | number (x : ℚ)
  | string (s : String)
  | array (l : List Meaning)
  | object (l : List (String × Meaning))

namespace Meaning

/-- The members of an object. -/
def members : Meaning → List (String × Meaning)
  | object l => l
  | _ => []

def isObject : Meaning → Bool
  | object _ => true
  | _ => false

end Meaning

mutual

/-- What a value says. -/
def meaning : Json → Meaning
  | null => .null
  | boolean b => .boolean b
  | integer i => .number i.toInt
  | unsigned u => .number u.toNat
  | real x => .number x.val
  | string s => .string s
  | array l => .array (meaningList l)
  | object l => .object (meaningMembers l)

def meaningList : List Json → List Meaning
  | [] => []
  | a :: l => meaning a :: meaningList l

def meaningMembers : List (String × Json) → List (String × Meaning)
  | [] => []
  | (k, a) :: l => (k, meaning a) :: meaningMembers l

end

/-- Two values say the same. -/
def Same (a b : Json) : Prop := a.meaning = b.meaning

theorem Same.refl (a : Json) : Same a a := rfl

theorem Same.symm {a b : Json} (h : Same a b) : Same b a := Eq.symm h

theorem Same.trans {a b c : Json} (h : Same a b) (h' : Same b c) : Same a c := Eq.trans h h'

/-! ### The members of an object -/

theorem meaningMembers_eq_map (l : List (String × Json)) :
    meaningMembers l = l.map fun e => (e.1, meaning e.2) := by
  induction l with
  | nil => rfl
  | cons e l ih => rw [meaningMembers, ih, List.map_cons]

theorem members_meaning (j : Json) : j.meaning.members = meaningMembers j.members := by
  cases j <;> rfl

theorem isObject_meaning (j : Json) : j.meaning.isObject = j.isObject := by
  cases j <;> rfl

/-- Only objects say what an object says. -/
theorem Same.isObject {a b : Json} (h : Same a b) : a.isObject = b.isObject := by
  rw [← isObject_meaning a, ← isObject_meaning b, h]

theorem get_meaningMembers (l : List (String × Json)) (name : String) :
    SortedMap.get name (meaningMembers l) = (SortedMap.get name l).map meaning := by
  rw [meaningMembers_eq_map, SortedMap.get, List.find?_map, Option.map_map, SortedMap.get,
    Option.map_map]
  rfl

theorem Same.members {a b : Json} (h : Same a b) :
    meaningMembers a.members = meaningMembers b.members := by
  rw [← members_meaning, ← members_meaning, h]

/-- **Members of values that say the same** say the same. -/
theorem Same.get {a b : Json} (h : Same a b) (name : String) : Same (a.get name) (b.get name) := by
  have hmeaning : ∀ j : Json, (j.get name).meaning =
      (SortedMap.get name (meaningMembers j.members)).getD .null := by
    intro j
    rw [get_eq, get_meaningMembers]
    cases SortedMap.get name j.members <;> rfl
  rw [Same, hmeaning, hmeaning, h.members]

/-- There are as many of them. -/
theorem Same.length_members {a b : Json} (h : Same a b) :
    a.members.length = b.members.length := by
  have hlength := congrArg List.length h.members
  rwa [meaningMembers_eq_map, meaningMembers_eq_map, List.length_map, List.length_map] at hlength

/-! ### What the library takes for equal -/

theorem toInt64_of_toNat {u : UInt64} {i : Int64} (h : (u.toNat : ℤ) = i.toInt) : u.toInt64 = i := by
  refine Int64.toInt_inj.mp ?_
  have hbmod : u.toInt64.toInt = (u.toNat : ℤ).bmod (2 ^ 64) :=
    BitVec.toInt_eq_toNat_bmod u.toBitVec
  rw [hbmod, h]
  exact i.toInt_bmod

theorem toBinary64_of_toInt {i : Int64} {x : Binary64} (h : (i.toInt : ℚ) = x.val) :
    i.toBinary64 = x := Binary64.ofInt_val _ h.symm

theorem toBinary64_of_toNat {u : UInt64} {x : Binary64} (h : (u.toNat : ℚ) = x.val) :
    u.toBinary64 = x := Binary64.ofInt_val _ (h.symm.trans (Int.cast_natCast _).symm)

/-- Numbers that are the same are equal, whatever they are kept as. -/
theorem numberEqv_of_meaning {a b : Json} {x : ℚ} (ha : a.meaning = .number x)
    (hb : b.meaning = .number x) : eqv a b = true := by
  cases a with
  | integer i =>
      obtain rfl := Meaning.number.inj ha
      cases b with
      | integer j =>
          exact beq_iff_eq.mpr (Int64.toInt_inj.mp (Int.cast_injective (Meaning.number.inj hb).symm))
      | unsigned v =>
          have hv : (v.toNat : ℤ) = i.toInt := by exact_mod_cast Meaning.number.inj hb
          exact beq_iff_eq.mpr (toInt64_of_toNat hv).symm
      | real y => exact beq_iff_eq.mpr (toBinary64_of_toInt (Meaning.number.inj hb).symm)
      | _ => cases hb
  | unsigned u =>
      obtain rfl := Meaning.number.inj ha
      cases b with
      | integer j =>
          have hu : (u.toNat : ℤ) = j.toInt := by exact_mod_cast (Meaning.number.inj hb).symm
          exact beq_iff_eq.mpr (toInt64_of_toNat hu)
      | unsigned v =>
          exact beq_iff_eq.mpr (UInt64.toNat_inj.mp (Nat.cast_injective (Meaning.number.inj hb).symm))
      | real y => exact beq_iff_eq.mpr (toBinary64_of_toNat (Meaning.number.inj hb).symm)
      | _ => cases hb
  | real x =>
      obtain rfl := Meaning.number.inj ha
      cases b with
      | integer j => exact beq_iff_eq.mpr (toBinary64_of_toInt (Meaning.number.inj hb)).symm
      | unsigned v => exact beq_iff_eq.mpr (toBinary64_of_toNat (Meaning.number.inj hb)).symm
      | real y => exact beq_iff_eq.mpr (Binary64.ext (Meaning.number.inj hb).symm)
      | _ => cases hb
  | _ => cases ha

mutual

/-- **Values that say the same** are equal to the library. -/
theorem eqv_of_same : ∀ {a b : Json}, Same a b → eqv a b = true
  | integer i, b, h => numberEqv_of_meaning rfl (Eq.symm h)
  | unsigned u, b, h => numberEqv_of_meaning rfl (Eq.symm h)
  | real x, b, h => numberEqv_of_meaning rfl (Eq.symm h)
  | null, b, h => by
      cases b with
      | null => rfl
      | _ => cases h
  | boolean a, b, h => by
      cases b with
      | boolean b => exact beq_iff_eq.mpr (Meaning.boolean.inj h)
      | _ => cases h
  | string s, b, h => by
      cases b with
      | string t => exact beq_iff_eq.mpr (Meaning.string.inj h)
      | _ => cases h
  | array l, b, h => by
      cases b with
      | array m => exact eqvList_of_same (Meaning.array.inj h)
      | _ => cases h
  | object l, b, h => by
      cases b with
      | object m => exact eqvMembers_of_same (Meaning.object.inj h)
      | _ => cases h

theorem eqvList_of_same : ∀ {l m : List Json}, meaningList l = meaningList m → eqvList l m = true
  | [], [], _ => rfl
  | a :: l, b :: m, h => by
      obtain ⟨hab, hlm⟩ := List.cons.inj h
      rw [eqvList, eqv_of_same hab, eqvList_of_same hlm]
      rfl

theorem eqvMembers_of_same : ∀ {l m : List (String × Json)},
    meaningMembers l = meaningMembers m → eqvMembers l m = true
  | [], [], _ => rfl
  | (k, a) :: l, (k', b) :: m, h => by
      obtain ⟨hab, hlm⟩ := List.cons.inj h
      obtain ⟨hk, hab⟩ := Prod.mk.inj hab
      rw [eqvMembers, eqv_of_same hab, eqvMembers_of_same hlm, beq_iff_eq.mpr hk]
      rfl

end

/-! ### Numbers that are not converted to others -/

mutual

/-- No integer in the value is larger than what double precision writes with all its digits. -/
def Small : Json → Prop
  | integer i => i.toInt.natAbs ≤ 2 ^ 53
  | unsigned u => u.toNat ≤ 2 ^ 53
  | array l => SmallList l
  | object l => SmallMembers l
  | _ => True

def SmallList : List Json → Prop
  | [] => True
  | a :: l => Small a ∧ SmallList l

def SmallMembers : List (String × Json) → Prop
  | [] => True
  | (_, a) :: l => Small a ∧ SmallMembers l

end

theorem val_toBinary64_int {i : Int64} (h : (integer i).Small) : i.toBinary64.val = i.toInt :=
  Binary64.val_ofInt_of_le _ h

theorem val_toBinary64_nat {u : UInt64} (h : (unsigned u).Small) : u.toBinary64.val = u.toNat := by
  have hle : (u.toNat : ℤ).natAbs ≤ 2 ^ 53 := h
  exact (Binary64.val_ofInt_of_le _ hle).trans (Int.cast_natCast _)

theorem toInt_toInt64 {u : UInt64} (h : (unsigned u).Small) : u.toInt64.toInt = u.toNat := by
  have hle : u.toNat ≤ 2 ^ 53 := h
  have hbmod : u.toInt64.toInt = (u.toNat : ℤ).bmod (2 ^ 64) :=
    BitVec.toInt_eq_toNat_bmod u.toBitVec
  rw [hbmod]
  exact Int.bmod_eq_of_le (by omega) (by omega)

theorem same_of_numberEqv {a b : Json} (ha : a.Small) (hb : b.Small) (h : numberEqv a b = true) :
    Same a b := by
  cases a with
  | integer i =>
      cases b with
      | integer j =>
          have hj : i = j := beq_iff_eq.mp h
          rw [hj]
          rfl
      | unsigned v =>
          have hv := congrArg Int64.toInt (beq_iff_eq.mp h)
          rw [toInt_toInt64 hb] at hv
          exact congrArg Meaning.number (by exact_mod_cast hv)
      | real y =>
          have hy := congrArg Binary64.val (beq_iff_eq.mp h)
          rw [val_toBinary64_int ha] at hy
          exact congrArg Meaning.number hy
      | _ => cases h
  | unsigned u =>
      cases b with
      | integer j =>
          have hu := congrArg Int64.toInt (beq_iff_eq.mp h)
          rw [toInt_toInt64 ha] at hu
          exact congrArg Meaning.number (by exact_mod_cast hu)
      | unsigned v =>
          have hv : u = v := beq_iff_eq.mp h
          rw [hv]
          rfl
      | real y =>
          have hy := congrArg Binary64.val (beq_iff_eq.mp h)
          rw [val_toBinary64_nat ha] at hy
          exact congrArg Meaning.number hy
      | _ => cases h
  | real x =>
      cases b with
      | integer j =>
          have hx := congrArg Binary64.val (beq_iff_eq.mp h)
          rw [val_toBinary64_int hb] at hx
          exact congrArg Meaning.number hx
      | unsigned v =>
          have hx := congrArg Binary64.val (beq_iff_eq.mp h)
          rw [val_toBinary64_nat hb] at hx
          exact congrArg Meaning.number hx
      | real y =>
          have hy : x = y := beq_iff_eq.mp h
          rw [hy]
          rfl
      | _ => cases h
  | _ => cases h

mutual

/-- **Values without larger numbers** are equal to the library only if they say the same. -/
theorem same_of_eqv : ∀ {a b : Json}, a.Small → b.Small → eqv a b = true → Same a b
  | integer _, _, ha, hb, h => same_of_numberEqv ha hb h
  | unsigned _, _, ha, hb, h => same_of_numberEqv ha hb h
  | real _, _, ha, hb, h => same_of_numberEqv ha hb h
  | null, b, _, _, h => by
      cases b with
      | null => rfl
      | _ => cases h
  | boolean a, b, _, _, h => by
      cases b with
      | boolean b => exact congrArg Meaning.boolean (beq_iff_eq.mp h)
      | _ => cases h
  | string s, b, _, _, h => by
      cases b with
      | string t => exact congrArg Meaning.string (beq_iff_eq.mp h)
      | _ => cases h
  | array l, b, ha, hb, h => by
      cases b with
      | array m => exact congrArg Meaning.array (same_of_eqvList ha hb h)
      | _ => cases h
  | object l, b, ha, hb, h => by
      cases b with
      | object m => exact congrArg Meaning.object (same_of_eqvMembers ha hb h)
      | _ => cases h

theorem same_of_eqvList : ∀ {l m : List Json}, SmallList l → SmallList m →
    eqvList l m = true → meaningList l = meaningList m
  | [], [], _, _, _ => rfl
  | a :: l, b :: m, hl, hm, h => by
      rw [eqvList, Bool.and_eq_true] at h
      exact congrArg₂ List.cons (same_of_eqv hl.1 hm.1 h.1) (same_of_eqvList hl.2 hm.2 h.2)

theorem same_of_eqvMembers : ∀ {l m : List (String × Json)}, SmallMembers l → SmallMembers m →
    eqvMembers l m = true → meaningMembers l = meaningMembers m
  | [], [], _, _, _ => rfl
  | (k, a) :: l, (k', b) :: m, hl, hm, h => by
      rw [eqvMembers, Bool.and_eq_true, Bool.and_eq_true] at h
      obtain ⟨⟨hk, hab⟩, hlm⟩ := h
      exact congrArg₂ List.cons (Prod.ext (beq_iff_eq.mp hk) (same_of_eqv hl.1 hm.1 hab))
        (same_of_eqvMembers hl.2 hm.2 hlm)

end

/-- Two to the 53rd in double precision. -/
def twoTo53 : Binary64 := ⟨2 ^ 53, 1, 53, by decide, by decide, by decide, by norm_num⟩

-- what is equal to one value is not equal to each other: an integer of 54 digits is rounded
example : eqv (unsigned 9007199254740993) (real twoTo53) = true ∧
    eqv (real twoTo53) (unsigned 9007199254740992) = true ∧
      eqv (unsigned 9007199254740993) (unsigned 9007199254740992) = false := by
  refine ⟨?_, ?_, ?_⟩
  · decide +kernel
  · decide +kernel
  · decide

end Json

namespace ZGalaxy

/-! ### Reading values that say the same -/

theorem ofInt_toNat (n : UInt64) : UInt64.ofInt (n.toNat : ℤ) = n := by
  have hlt := n.toNat_lt
  rw [UInt64.ofInt, Int.emod_eq_of_lt (Int.natCast_nonneg _) (by exact_mod_cast hlt),
    Int.toNat_natCast, UInt64.ofNat_toNat]

theorem ofInt_toInt (i : Int64) : UInt64.ofInt i.toInt = i.toUInt64 := by
  have hmod : (i.toInt % 2 ^ 64).toNat = i.toUInt64.toNat :=
    (BitVec.toNat_ofInt i.toInt).symm.trans (congrArg BitVec.toNat (BitVec.ofInt_int64ToInt i))
  rw [UInt64.ofInt, hmod, UInt64.ofNat_toNat]

/-- What a value says, as a number. -/
def saidInt (dfl : UInt64) : Json.Meaning → UInt64
  | .number x => UInt64.ofInt (x.num.tdiv x.den)
  | .string s => CString.strtoull 10 s
  | .boolean b => if b then 1 else 0
  | _ => dfl

/-- A number is read as what it says. -/
theorem jsonInt_eq (a : Json) (dfl : UInt64) : jsonInt a dfl = saidInt dfl a.meaning := by
  cases a with
  | integer i =>
      show i.toUInt64 = UInt64.ofInt ((i.toInt : ℚ).num.tdiv (i.toInt : ℚ).den)
      rw [Rat.num_intCast, Rat.den_intCast, Nat.cast_one, Int.tdiv_one, ofInt_toInt]
  | unsigned u =>
      show u = UInt64.ofInt ((u.toNat : ℚ).num.tdiv (u.toNat : ℚ).den)
      rw [Rat.num_natCast, Rat.den_natCast, Nat.cast_one, Int.tdiv_one, ofInt_toNat]
  | _ => rfl

/-- **Values that say the same are read alike** as numbers. -/
theorem jsonInt_of_same {a b : Json} (h : Json.Same a b) (dfl : UInt64) :
    jsonInt a dfl = jsonInt b dfl := by
  rw [jsonInt_eq, jsonInt_eq, h]

/-- What a value says, as a truth value. -/
def saidBool (dfl : Bool) : Json.Meaning → Bool
  | .boolean b => b
  | .number x => 0 < saidInt 0 (.number x)
  | .string s => s.toList.head?.any fun c => c == 't' || c == 'T' || c == '1'
  | _ => dfl

theorem jsonBool_eq (a : Json) (dfl : Bool) : jsonBool a dfl = saidBool dfl a.meaning := by
  cases a with
  | integer i => exact congrArg (fun n => decide (0 < n)) (jsonInt_eq (.integer i) 0)
  | unsigned u => exact congrArg (fun n => decide (0 < n)) (jsonInt_eq (.unsigned u) 0)
  | _ => rfl

/-- Values that say the same are read alike as truth values. -/
theorem jsonBool_of_same {a b : Json} (h : Json.Same a b) (dfl : Bool) :
    jsonBool a dfl = jsonBool b dfl := by
  rw [jsonBool_eq, jsonBool_eq, h]

/-! ### Comparing records -/

/-- What comparing a member looks for. -/
def agrees (m : List (String × Json)) (e : String × Json) : Bool :=
  e.1 == "revision" || (SortedMap.get e.1 m).any fun b => b.eqv e.2

/-- **Objects compare as the same** if they have as many members, and each but the revision is
found in the other. -/
theorem compareRecords_iff {a b : Json} (ha : a.isObject = true) (hb : b.isObject = true) :
    compareRecords a b = true ↔
      a.members.length = b.members.length ∧ ∀ e ∈ a.members, agrees b.members e = true := by
  cases a with
  | object l =>
      cases b with
      | object m =>
          show (l.length == m.length && l.all (agrees m)) = true ↔ _
          rw [Bool.and_eq_true, beq_iff_eq, List.all_eq_true]
          rfl
      | _ => cases hb
  | _ => cases ha

/-- **A record compares as the same** with a value that says the same. -/
theorem compareRecords_of_same {a : Json} {r : JsonRecord} (h : Json.Same a r.json) :
    compareRecords a r.json = true := by
  rw [compareRecords_iff h.isObject rfl]
  refine ⟨h.length_members, fun e he => ?_⟩
  -- what is found in the record is a member that says the same
  have hmem : (e.1, e.2.meaning) ∈ Json.meaningMembers r.members := by
    show _ ∈ Json.meaningMembers r.json.members
    rw [← h.members, Json.meaningMembers_eq_map]
    exact List.mem_map.mpr ⟨e, he, rfl⟩
  rw [Json.meaningMembers_eq_map] at hmem
  obtain ⟨x, hx, heq⟩ := List.mem_map.mp hmem
  obtain ⟨hname, hsays⟩ := Prod.mk.inj heq
  have hget : SortedMap.get e.1 r.members = some x.2 := by
    rw [← hname]
    exact SortedMap.get_of_mem (r.sorted.nodup FileDB.nameLt_irrefl) hx
  rw [agrees, Bool.or_eq_true, show r.json.members = r.members from rfl, hget]
  exact Or.inr (Json.eqv_of_same hsays)

end ZGalaxy
