/-
ZGalaxy/RecordComparison.lean

What comparing two records decides.

`compareRecords` looks for every field of the one record but the revision in the other, and takes
it that there is nothing else in the other when both have as many fields.  The revision is one of
the fields that are counted.  So a record without a revision is as long as one that has a revision
and a field less: the field that is new is not seen, and a record that lacks nothing but the
revision is taken for another one.  And a field counts as found if the library takes the two values
for equal, which for numbers does not mean that they are the same.

Main results: `compare_exact_iff`, that two values are judged rightly unless one of these things
happens, and `recordComparison_iff`, which has it for saving as well, in every database that is
reached.
-/
import ZGalaxy.MirrorSet

namespace SortedMap

variable {K V : Type*} {lt : K → K → Bool} {l m : List (K × V)}

/-- **Maps with the same entries** are the same: it is enough that each entry of the one is in the
other, and that the other has no more of them. -/
theorem Sorted.eq_of_subset (hirrefl : ∀ a, lt a a = false)
    (hasymm : ∀ a b, lt a b = true → lt b a = true → False) (hl : Sorted lt l) (hm : Sorted lt m)
    (hsub : l ⊆ m) (hlength : m.length ≤ l.length) : l = m := by
  have hnodup : l.Nodup := (hl.nodup hirrefl).of_map Prod.fst
  have hperm : l.Perm m := (List.subperm_of_subset hnodup hsub).perm_of_length_le hlength
  refine hperm.eq_of_pairwise (fun a b _ _ hab hba => ?_) hl hm
  exact (hasymm _ _ hab hba).elim

variable [DecidableEq K]

/-- What is found under a key is an entry, and the only one. -/
theorem Sorted.get_iff (hirrefl : ∀ a, lt a a = false) (hl : Sorted lt l) {e : K × V} :
    get e.1 l = some e.2 ↔ e ∈ l := by
  exact ⟨mem_of_get, get_of_mem (hl.nodup hirrefl)⟩

theorem Sorted.erase (hl : Sorted lt l) (k : K) : Sorted lt (SortedMap.erase k l) :=
  List.Pairwise.filter _ hl

theorem mem_erase_iff {k : K} {e : K × V} : e ∈ SortedMap.erase k l ↔ e ∈ l ∧ e.1 ≠ k := by
  rw [SortedMap.erase, List.mem_filter, bne_iff_ne]

/-- A key that is erased counts for one entry. -/
theorem Sorted.length_erase (hirrefl : ∀ a, lt a a = false) (hl : Sorted lt l) (k : K) :
    l.length = (SortedMap.erase k l).length + if (get k l).isSome then 1 else 0 := by
  induction l with
  | nil => rfl
  | cons e l ih =>
      obtain ⟨he, hl'⟩ := List.pairwise_cons.mp hl
      have hcons : SortedMap.erase k (e :: l)
          = if e.1 = k then SortedMap.erase k l else e :: SortedMap.erase k l := by
        rw [SortedMap.erase, List.filter_cons]
        by_cases hk : e.1 = k
        · rw [if_pos hk, hk, bne_self_eq_false, if_neg Bool.false_ne_true]
          rfl
        · rw [if_neg hk, bne_iff_ne.mpr hk, if_pos rfl]
          rfl
      rw [hcons, get_cons, List.length_cons, ih hl']
      by_cases hk : e.1 = k
      · -- no other entry has the key
        have hnone : get k l = none := by
          rcases hget : get k l with - | v
          · rfl
          · have hlt := he _ (mem_of_get hget)
            rw [hk, hirrefl] at hlt
            cases hlt
        rw [if_pos hk, if_pos hk, hnone]
        rfl
      · rw [if_neg hk, if_neg hk, List.length_cons]
        exact Nat.add_right_comm _ _ _

end SortedMap

namespace ZGalaxy

/-- A JSON value, with its members in order if it is an object. -/
structure JsonValue where
  json : Json
  sorted : SortedMap.Sorted Json.nameLt json.members

/-- The value without its revision, if it is an object. -/
def withoutRevision (j : Json) : Json := if j.isObject then j.erase "revision" else j

/-- The two are equal once the revision is taken from each. -/
def EqualButRevision (a b : Json) : Prop := Json.Same (withoutRevision a) (withoutRevision b)

/-- How many fields there are apart from the revision. -/
def otherFields (j : Json) : ℕ := (j.erase "revision").members.length

/-- Each field of the first but the revision is in the second, and says the same. -/
def FieldsKept (a b : Json) : Prop :=
  ∀ e ∈ a.members, e.1 = "revision" ∨
    ∃ v, SortedMap.get e.1 b.members = some v ∧ Json.Same v e.2

/-- Each is in the second, and the library takes the two for equal. -/
def FieldsTaken (a b : Json) : Prop := ∀ e ∈ a.members, agrees b.members e = true

/-- The library takes the two for equal, although they do not say the same. -/
def Confused (a b : Json) : Prop := a.eqv b = true ∧ ¬Json.Same a b

/-- Of two objects both have a revision, or neither; they have as many other fields, and each of
the first is taken for one of the second, but one of these is confused.  Or just one has a
revision: the other fields of the first are all found in the second, and the second has no others;
or it has one more, and it is the one without a revision.  Other values are confused. -/
def Misjudged (a b : Json) : Prop :=
  if a.isObject = true ∧ b.isObject = true then
    if a.contains "revision" = b.contains "revision" then
      otherFields b = otherFields a ∧ FieldsTaken a b ∧
        ∃ e ∈ a.members, e.1 ≠ "revision" ∧ Confused (b.get e.1) e.2
    else
      FieldsKept a b ∧ otherFields b = otherFields a ∨
        FieldsTaken a b ∧ a.contains "revision" = true ∧ otherFields b = otherFields a + 1
  else Confused a b

/-! ### Fields that are not the revision -/

section Fields

theorem nameLt_asymm (a b : String) (h : Json.nameLt a b = true) (h' : Json.nameLt b a = true) :
    False := lt_asymm (of_decide_eq_true h) (of_decide_eq_true h')

variable {a b : JsonValue}

/-- What the members say, without the revision. -/
def JsonValue.fields (a : JsonValue) : List (String × Json.Meaning) :=
  SortedMap.erase "revision" (Json.meaningMembers a.json.members)

theorem JsonValue.sorted_meaning (a : JsonValue) :
    SortedMap.Sorted Json.nameLt (Json.meaningMembers a.json.members) := by
  rw [Json.meaningMembers_eq_map]
  exact List.pairwise_map.mpr a.sorted

theorem JsonValue.sorted_fields (a : JsonValue) : SortedMap.Sorted Json.nameLt a.fields :=
  a.sorted_meaning.erase _

/-- The revision says nothing of the other members. -/
theorem meaningMembers_erase (l : List (String × Json)) :
    Json.meaningMembers (SortedMap.erase "revision" l)
      = SortedMap.erase "revision" (Json.meaningMembers l) := by
  rw [Json.meaningMembers_eq_map, Json.meaningMembers_eq_map, SortedMap.erase, SortedMap.erase,
    List.filter_map]
  rfl

theorem length_fields (a : JsonValue) : a.fields.length = otherFields a.json := by
  show (SortedMap.erase "revision" (Json.meaningMembers a.json.members)).length = _
  rw [← meaningMembers_erase, Json.meaningMembers_eq_map, List.length_map]
  rfl

/-- **Equal but for the revision**, for objects. -/
theorem equalButRevision_iff (ha : a.json.isObject = true) (hb : b.json.isObject = true) :
    EqualButRevision a.json b.json ↔ a.fields = b.fields := by
  rw [EqualButRevision, withoutRevision, withoutRevision, if_pos ha, if_pos hb, Json.Same]
  show Json.Meaning.object (Json.meaningMembers (SortedMap.erase "revision" a.json.members))
    = Json.Meaning.object (Json.meaningMembers (SortedMap.erase "revision" b.json.members)) ↔ _
  rw [Json.Meaning.object.injEq, meaningMembers_erase, meaningMembers_erase]
  rfl

/-- What a field of the first object says is said in the second. -/
theorem kept_iff_subset : FieldsKept a.json b.json ↔ a.fields ⊆ b.fields := by
  have hget : ∀ e : String × Json,
      (∃ v, SortedMap.get e.1 b.json.members = some v ∧ Json.Same v e.2) ↔
        (e.1, e.2.meaning) ∈ Json.meaningMembers b.json.members := by
    intro e
    rw [← b.sorted_meaning.get_iff FileDB.nameLt_irrefl, Json.get_meaningMembers,
      Option.map_eq_some_iff]
    rfl
  constructor
  · intro h e he
    obtain ⟨he, hname⟩ := SortedMap.mem_erase_iff.mp he
    rw [Json.meaningMembers_eq_map] at he
    obtain ⟨x, hx, rfl⟩ := List.mem_map.mp he
    exact SortedMap.mem_erase_iff.mpr ⟨(hget x).mp ((h x hx).resolve_left hname), hname⟩
  · intro h e he
    refine or_iff_not_imp_left.mpr fun hname => (hget e).mpr ?_
    have hin : (e.1, e.2.meaning) ∈ a.fields := by
      refine SortedMap.mem_erase_iff.mpr ⟨?_, hname⟩
      rw [Json.meaningMembers_eq_map]
      exact List.mem_map.mpr ⟨e, he, rfl⟩
    exact (SortedMap.mem_erase_iff.mp (h hin)).1

/-- A field that is looked for is the revision, or is found. -/
theorem agrees_iff {m : List (String × Json)} {e : String × Json} :
    agrees m e = true ↔
      e.1 = "revision" ∨ ∃ v, SortedMap.get e.1 m = some v ∧ v.eqv e.2 = true := by
  rw [agrees, Bool.or_eq_true, beq_iff_eq, Option.any_eq_true]

/-- What says the same is taken for equal. -/
theorem FieldsKept.taken {a b : Json} (h : FieldsKept a b) : FieldsTaken a b := by
  intro e he
  refine agrees_iff.mpr ((h e he).imp_right ?_)
  rintro ⟨v, hv, hsame⟩
  exact ⟨v, hv, Json.eqv_of_same hsame⟩

/-- **What is taken for equal** says the same, unless a field is confused. -/
theorem taken_not_kept {a b : Json} (h : FieldsTaken a b) :
    ¬FieldsKept a b ↔ ∃ e ∈ a.members, e.1 ≠ "revision" ∧ Confused (b.get e.1) e.2 := by
  have hone : ∀ e ∈ a.members,
      ¬(e.1 = "revision" ∨ ∃ v, SortedMap.get e.1 b.members = some v ∧ Json.Same v e.2) ↔
        e.1 ≠ "revision" ∧ Confused (b.get e.1) e.2 := by
    intro e he
    rw [not_or]
    refine and_congr_right fun hname => ?_
    obtain ⟨v, hv, heqv⟩ := (agrees_iff.mp (h e he)).resolve_left hname
    have hget : b.get e.1 = v := by
      rw [Json.get_eq, hv]
      rfl
    rw [hget, Confused, hv]
    constructor
    · exact fun hnot => ⟨heqv, fun hsame => hnot ⟨v, rfl, hsame⟩⟩
    · rintro hconfused ⟨w, hw, hsame⟩
      exact hconfused.2 (Option.some.inj hw ▸ hsame)
  rw [FieldsKept]
  push Not
  exact exists_congr fun e => and_congr_right fun he => by rw [← hone e he]; push Not; rfl

/-- The revision counts as a field. -/
theorem length_members (a : JsonValue) :
    a.json.members.length = otherFields a.json + if a.json.contains "revision" then 1 else 0 :=
  a.sorted.length_erase FileDB.nameLt_irrefl "revision"

/-- **What comparing two objects decides**: the fields of the first are taken for fields of the
second, and both are as long with their revisions. -/
theorem compareRecords_iff_fields (ha : a.json.isObject = true) (hb : b.json.isObject = true) :
    compareRecords a.json b.json = true ↔ FieldsTaken a.json b.json ∧
      otherFields a.json + (if a.json.contains "revision" then 1 else 0)
        = otherFields b.json + if b.json.contains "revision" then 1 else 0 := by
  rw [compareRecords_iff ha hb, length_members, length_members]
  exact and_comm

/-- Two objects are equal but for the revision if the fields of the first are kept in the second,
and there are no others. -/
theorem equalButRevision_iff_kept (ha : a.json.isObject = true) (hb : b.json.isObject = true) :
    EqualButRevision a.json b.json ↔
      FieldsKept a.json b.json ∧ otherFields a.json = otherFields b.json := by
  rw [equalButRevision_iff ha hb, kept_iff_subset, ← length_fields, ← length_fields]
  constructor
  · intro h
    rw [h]
    exact ⟨List.Subset.refl _, rfl⟩
  · rintro ⟨hsub, hlength⟩
    exact a.sorted_fields.eq_of_subset FileDB.nameLt_irrefl nameLt_asymm b.sorted_fields hsub
      hlength.ge

/-- Fields that are found are at most as many. -/
theorem otherFields_le (h : FieldsTaken a.json b.json) : otherFields a.json ≤ otherFields b.json := by
  have hnames : ∀ j : Json, otherFields j = ((SortedMap.erase "revision" j.members).map
      Prod.fst).length := fun j => (List.length_map _).symm
  rw [hnames, hnames]
  refine (List.subperm_of_subset ((a.sorted.erase _).nodup FileDB.nameLt_irrefl) ?_).length_le
  intro name hname
  obtain ⟨e, he, rfl⟩ := List.mem_map.mp hname
  obtain ⟨he, hne⟩ := SortedMap.mem_erase_iff.mp he
  obtain ⟨v, hv, -⟩ := (agrees_iff.mp (h e he)).resolve_left hne
  exact List.mem_map.mpr ⟨(e.1, v), SortedMap.mem_erase_iff.mpr ⟨SortedMap.mem_of_get hv, hne⟩, rfl⟩

end Fields

/-! ### When the comparison is right -/

/-- A value that is no object is compared as a whole. -/
theorem compareRecords_of_not_object {a b : Json} (h : ¬(a.isObject = true ∧ b.isObject = true)) :
    compareRecords a b = a.eqv b := by
  cases a with
  | object l =>
      cases b with
      | object m => exact absurd ⟨rfl, rfl⟩ h
      | _ => rfl
  | _ =>
      cases b with
      | object m => rfl
      | _ => rfl

theorem isObject_of_compare {a b : Json} (h : compareRecords a b = true) (hb : b.isObject = true) :
    a.isObject = true := by
  cases b with
  | object m =>
      cases a with
      | object l => rfl
      | _ => cases h
  | _ => cases hb

/-- So it is the same value without its revision. -/
theorem equalButRevision_of_not_object {a b : Json}
    (h : ¬(a.isObject = true ∧ b.isObject = true)) :
    EqualButRevision a b ↔ Json.Same a b := by
  have hwithout : ∀ j : Json, (withoutRevision j).isObject = j.isObject := by
    intro j
    rw [withoutRevision]
    split_ifs with hj
    · exact hj.symm
    · rfl
  by_cases hobj : a.isObject = b.isObject
  · -- neither is an object
    have ha : ¬a.isObject = true := fun ha => h ⟨ha, hobj ▸ ha⟩
    rw [EqualButRevision, withoutRevision, withoutRevision, if_neg ha, if_neg (hobj ▸ ha)]
  · refine iff_of_false (fun heq => hobj ?_) fun hsame => hobj hsame.isObject
    rw [← hwithout a, ← hwithout b]
    exact Json.Same.isObject heq

/-- **Two values are judged rightly** exactly if they are not misjudged. -/
theorem compare_exact_iff (a b : JsonValue) :
    (compareRecords a.json b.json = true ↔ EqualButRevision a.json b.json) ↔
      ¬Misjudged a.json b.json := by
  by_cases hobj : a.json.isObject = true ∧ b.json.isObject = true
  · have hle : FieldsTaken a.json b.json → otherFields a.json ≤ otherFields b.json := otherFields_le
    have htaken : FieldsKept a.json b.json → FieldsTaken a.json b.json := FieldsKept.taken
    have hconfused := fun h : FieldsTaken a.json b.json => taken_not_kept h
    rw [compareRecords_iff_fields hobj.1 hobj.2, equalButRevision_iff_kept hobj.1 hobj.2, Misjudged,
      if_pos hobj]
    generalize otherFields a.json = m at *
    generalize otherFields b.json = n at *
    generalize FieldsTaken a.json b.json = T at *
    generalize FieldsKept a.json b.json = K at *
    generalize (∃ e ∈ a.json.members, e.1 ≠ "revision" ∧ Confused (b.json.get e.1) e.2) = C at *
    -- by who has a revision
    by_cases hsame : a.json.contains "revision" = b.json.contains "revision"
    · rw [if_pos hsame, hsame, Nat.add_right_cancel_iff]
      constructor
      · rintro h ⟨heq, hT, hC⟩
        exact (hconfused hT).mpr hC (h.mp ⟨hT, heq.symm⟩).1
      · intro h
        refine ⟨fun hcompare => ⟨?_, hcompare.2⟩, fun hequal => ⟨htaken hequal.1, hequal.2⟩⟩
        by_contra hK
        exact h ⟨hcompare.2.symm, hcompare.1, (hconfused hcompare.1).mp hK⟩
    · rw [if_neg hsame]
      cases hrev : a.json.contains "revision" with
      | true =>
          have hrev' : b.json.contains "revision" = false :=
            Bool.eq_false_iff.mpr fun h => hsame (hrev.trans h.symm)
          rw [hrev', if_pos rfl, if_neg Bool.false_ne_true]
          constructor
          · rintro h (⟨hK, heq⟩ | ⟨hT, -, heq⟩)
            · have hwrong := (h.mpr ⟨hK, heq.symm⟩).2
              omega
            · have hwrong := (h.mp ⟨hT, by omega⟩).2
              omega
          · intro h
            refine iff_of_false ?_ ?_
            · rintro ⟨hT, heq⟩
              exact h (Or.inr ⟨hT, rfl, by omega⟩)
            · rintro ⟨hK, heq⟩
              exact h (Or.inl ⟨hK, heq.symm⟩)
      | false =>
          have hrev' : b.json.contains "revision" = true := by
            rw [hrev] at hsame
            exact Bool.eq_true_of_not_eq_false fun h => hsame h.symm
          rw [hrev', if_pos rfl, if_neg Bool.false_ne_true]
          constructor
          · rintro h (⟨hK, heq⟩ | ⟨-, hfalse, -⟩)
            · have hwrong := (h.mpr ⟨hK, heq.symm⟩).2
              omega
            · cases hfalse
          · intro h
            refine iff_of_false ?_ ?_
            · rintro ⟨hT, heq⟩
              have hmore := hle hT
              omega
            · rintro ⟨hK, heq⟩
              exact h (Or.inl ⟨hK, heq.symm⟩)
  · rw [compareRecords_of_not_object hobj, equalButRevision_of_not_object hobj, Misjudged,
      if_neg hobj, Confused, not_and_not_right]
    exact ⟨Iff.mp, fun h => ⟨h, Json.eqv_of_same⟩⟩

theorem EqualButRevision.symm {a b : Json} (h : EqualButRevision a b) : EqualButRevision b a :=
  Json.Same.symm h

theorem EqualButRevision.trans {a b c : Json} (h : EqualButRevision a b)
    (h' : EqualButRevision b c) : EqualButRevision a c := Json.Same.trans h h'

/-! ### Saving -/

namespace FileDB

variable (pton : InetPton) {L : Type} (changeListeners : List L)

/-- What a listener is told of a record that is stored. -/
def RecordKey.update (record : Json) (listener : L) : RecordKey → DBCall L
  | .network networkId => .onNetworkUpdate listener networkId record
  | .member networkId memberId => .onNetworkMemberUpdate listener networkId memberId record

/-- The record is written with its revision counted up, nothing else is, and the listeners are told
if they are to be. -/
structure WritesAndTells (db : FileDB) (key : RecordKey) (record : JsonRecord) (notify : Bool) :
    Prop where
  modified : (db.save pton changeListeners record.json notify).2 = true
  held : ∀ key', (db.save pton changeListeners record.json notify).1.1.held key' =
    if key' = key then record.revised.json else db.held key'
  told : ∀ listener ∈ changeListeners, notify = true → key.update record.revised.json listener ∈
    (db.save pton changeListeners record.json notify).1.2

/-- A record is written and told of if there was none, or another field than the revision is not as
it was; and otherwise nothing happens. -/
def SavesChanges (db : FileDB) (key : RecordKey) (record : JsonRecord) (notify : Bool) : Prop :=
  ((db.held key).isObject = true ∧ EqualButRevision (db.held key) record.json →
      db.save pton changeListeners record.json notify = ((db, []), false)) ∧
    (¬((db.held key).isObject = true ∧ EqualButRevision (db.held key) record.json) →
      WritesAndTells pton changeListeners db key record notify)

/-- The records that are held have their fields in order. -/
def Ordered (db : FileDB) : Prop := ∀ key, SortedMap.Sorted Json.nameLt (db.held key).members

variable {pton changeListeners} {db : FileDB}

/-- What a record that is stored is told as. -/
theorem told_of_stores (hdb : AllFiled db) {key : RecordKey} {record : JsonRecord}
    (hkey : recordKey record.json = some key) (h : db.Stores key record.json) :
    ∀ listener ∈ changeListeners, key.update record.revised.json listener ∈
      (db.save pton changeListeners record.json true).1.2 := by
  intro listener hlistener
  rw [stores_iff] at h
  rcases recordKey_cases hkey with ⟨ids, htype, hids, h0, hhex, rfl⟩ | ⟨nwid, id, htarget, rfl⟩
  · have hobj : (FileDB.revised record.json).isObject = true := rfl
    simp only [save, htype]
    rw [hhex, if_pos ⟨h0, h⟩, networkChanged, if_pos hobj, get_revised (by decide), hids,
      Option.map_some]
    dsimp only
    rw [if_pos h0, if_pos rfl]
    exact List.mem_map.mpr ⟨listener, hlistener, rfl⟩
  · have heffect : Effect pton changeListeners db (.save record true)
        (db.save pton changeListeners record.json true).1.1
        (db.save pton changeListeners record.json true).1.2 := save_effect hdb record true
    generalize (db.save pton changeListeners record.json true).1.1 = db' at heffect
    generalize (db.save pton changeListeners record.json true).1.2 = calls at heffect ⊢
    cases heffect with
    | ignored _ _ hnone =>
        rw [htarget] at hnone
        cases hnone
    | networkSaved _ _ _ _ _ hnone =>
        rw [htarget] at hnone
        cases hnone
    | memberSame _ _ nwid' id' kept htarget' hkept hsame =>
        rw [htarget] at htarget'
        obtain ⟨rfl, rfl⟩ := Prod.mk.inj (Option.some.inj htarget')
        have hheld : db.held (.member nwid id) = kept := by
          show db.getMember nwid id = kept
          rw [getMember_eq, hkept, Option.getD_some]
        obtain ⟨nw, hnw, hmem⟩ := record_eq_some hkept
        rw [hheld, ((hdb nwid nw hnw).kept hmem).1, hsame] at h
        simp at h
    | memberSaved _ _ nwid' id' _ htarget' _ hchanged =>
        rw [htarget] at htarget'
        obtain ⟨rfl, rfl⟩ := Prod.mk.inj (Option.some.inj htarget')
        rw [if_pos rfl]
        exact List.mem_append_left _ (List.mem_map.mpr ⟨listener, hlistener, rfl⟩)

variable (pton changeListeners) in
/-- **A record that is stored** is written and told of. -/
theorem writesAndTells_of_stores (hdb : AllFiled db) {key : RecordKey} {record : JsonRecord}
    (hkey : recordKey record.json = some key) (notify : Bool) (h : db.Stores key record.json) :
    WritesAndTells pton changeListeners db key record notify := by
  obtain ⟨hmodified, -, hheld⟩ := save_of_stores pton changeListeners notify hkey hdb h
  refine ⟨hmodified, hheld, fun listener hlistener hnotify => ?_⟩
  subst hnotify
  exact told_of_stores hdb hkey h listener hlistener

/-- **Changes are saved** exactly if the record is judged rightly. -/
theorem savesChanges_iff (hdb : AllFiled db) (hordered : db.Ordered) {key : RecordKey}
    {record : JsonRecord} (hkey : recordKey record.json = some key) (notify : Bool) :
    SavesChanges pton changeListeners db key record notify ↔
      ¬Misjudged (db.held key) record.json := by
  have hexact := compare_exact_iff ⟨db.held key, hordered key⟩ ⟨record.json, record.sorted⟩
  -- what is written is not dropped
  have hdiffer : WritesAndTells pton changeListeners db key record notify →
      db.save pton changeListeners record.json notify ≠ ((db, []), false) := by
    intro hwrites hdrops
    have hmodified := hwrites.modified
    rw [hdrops] at hmodified
    cases hmodified
  rw [← hexact, SavesChanges]
  by_cases hstores : db.Stores key record.json
  · have hwrites := writesAndTells_of_stores pton changeListeners hdb hkey notify hstores
    by_cases hsame : (db.held key).isObject = true ∧ EqualButRevision (db.held key) record.json
    · refine iff_of_false (fun h => hdiffer hwrites (h.1 hsame)) fun h => ?_
      exact not_stores_iff.mpr ⟨hsame.1, h.mpr hsame.2⟩ hstores
    · refine iff_of_true ⟨fun h => absurd h hsame, fun _ => hwrites⟩ ?_
      by_cases hobj : (db.held key).isObject = true
      · have hcompare : ¬compareRecords (db.held key) record.json = true :=
          fun h => not_stores_iff.mpr ⟨hobj, h⟩ hstores
        exact iff_of_false hcompare fun h => hsame ⟨hobj, h⟩
      · -- what is no object is not confused with one
        have hneither : ¬((db.held key).isObject = true ∧ record.json.isObject = true) :=
          fun h => hobj h.1
        refine hexact.mpr ?_
        rw [Misjudged, if_neg hneither]
        rintro ⟨heqv, -⟩
        rw [← compareRecords_of_not_object hneither] at heqv
        exact hobj (isObject_of_compare heqv rfl)
  · have hdrops : db.save pton changeListeners record.json notify = ((db, []), false) :=
      save_of_same notify hkey hstores
    obtain ⟨hobj, hcompare⟩ := not_stores_iff.mp hstores
    by_cases hequal : EqualButRevision (db.held key) record.json
    · exact iff_of_true ⟨fun _ => hdrops, fun h => absurd ⟨hobj, hequal⟩ h⟩
        (iff_of_true hcompare hequal)
    · exact iff_of_false (fun h => hdiffer (h.2 fun hand => hequal hand.2) hdrops)
        fun h => hequal (h.mp hcompare)

/-! ### Records stay in order -/

/-- The configurations of the networks have their fields in order. -/
def ConfigsOrdered (db : FileDB) : Prop :=
  ∀ nwid nw, db.networks.get nwid = some nw → SortedMap.Sorted Json.nameLt nw.config.members

theorem ConfigsOrdered.getD (h : db.ConfigsOrdered) (nwid : UInt64) :
    SortedMap.Sorted Json.nameLt ((db.networks.get nwid).getD DBNetwork.empty).config.members := by
  cases hnw : db.networks.get nwid with
  | none => exact List.Pairwise.nil
  | some nw => exact h nwid nw hnw

theorem ConfigsOrdered.changed {db' : FileDB} {nwid : UInt64} {nw : Option DBNetwork}
    (h : db.ConfigsOrdered) (hchanged : Changed db nwid nw db')
    (hnw : ∀ n, nw = some n → SortedMap.Sorted Json.nameLt n.config.members) :
    db'.ConfigsOrdered := by
  intro nwid' nw' hget
  rw [hchanged nwid'] at hget
  split_ifs at hget
  · exact hnw nw' hget
  · exact h nwid' nw' hget

theorem config_refile (nw : DBNetwork) (id : UInt64) (rec : Json) :
    (refile pton nw id rec).config = nw.config := by
  cases hkept : nw.members.get id with
  | none =>
      rw [refile_new hkept]
      rfl
  | some kept =>
      rw [refile_kept hkept]
      rfl

theorem ConfigsOrdered.step (h : db.ConfigsOrdered) {e : Event} {db' : FileDB}
    {calls : List (DBCall L)} (heffect : Effect pton changeListeners db e db' calls) :
    db'.ConfigsOrdered := by
  cases heffect with
  | ignored => exact h
  | networkSaved record notify nwid ids _ hnone hids hnwid hnwid0 hchanged =>
      refine h.changed hchanged fun n hn => ?_
      cases hn
      exact sorted_revised record
  | memberSame => exact h
  | memberSaved record notify nwid id _ htarget hnew hchanged =>
      refine h.changed hchanged fun n hn => ?_
      cases hn
      rw [config_refile]
      exact h.getD nwid
  | memberAbsent => exact h
  | memberErased nwid id nw kept _ hnw hkept hchanged =>
      refine h.changed hchanged fun n hn => ?_
      cases hn
      exact h nwid nw hnw
  | networkLeft => exact h
  | networkErased nwid nw _ hnw hobj hchanged =>
      exact h.changed hchanged fun n hn => absurd hn.symm (Option.some_ne_none n)

/-- **Records that are filed** are in order when the configurations are. -/
theorem ordered_of_filed (hdb : AllFiled db) (h : db.ConfigsOrdered) : db.Ordered := by
  intro key
  cases key with
  | network nwid =>
      show SortedMap.Sorted Json.nameLt (db.getNetwork nwid).members
      rw [getNetwork]
      cases hnw : db.networks.get nwid with
      | none => exact List.Pairwise.nil
      | some nw => exact h nwid nw hnw
  | member nwid id =>
      show SortedMap.Sorted Json.nameLt (db.getMember nwid id).members
      rw [getMember_eq]
      cases hrecord : db.record nwid id with
      | none => exact List.Pairwise.nil
      | some rec =>
          obtain ⟨nw, hnw, hmem⟩ := record_eq_some hrecord
          obtain ⟨r, rfl, -⟩ := (hdb nwid nw hnw).members id rec hmem
          exact sorted_revised r

variable (pton changeListeners) in
/-- Every database that is reached has its records filed, and in order. -/
theorem ordered_run (es : List Event) :
    AllFiled ((machine pton changeListeners).runState FileDB.empty es) ∧
      ((machine pton changeListeners).runState FileDB.empty es).Ordered := by
  have hinit : FileDB.empty.ConfigsOrdered := by
    intro nwid nw hnw
    rw [networks_empty] at hnw
    cases hnw
  have hrun : AllFiled ((machine pton changeListeners).runState FileDB.empty es) ∧
      ((machine pton changeListeners).runState FileDB.empty es).ConfigsOrdered := by
    refine Machine.invariant_run (M := machine pton changeListeners)
      (I := fun _ db => AllFiled db ∧ db.ConfigsOrdered) (C := fun _ _ => True)
      (s := FileDB.empty) (h := []) ?_ ⟨allFiled_empty, hinit⟩ (Machine.guarded_true _ _ es)
    rintro - db e ⟨hdb, hconfigs⟩ -
    have heffect := step_effect pton changeListeners hdb e
    exact ⟨hdb.step heffect, hconfigs.step heffect⟩
  exact ⟨hrun.1, ordered_of_filed hrun.1 hrun.2⟩

/-- An object with one field. -/
def oneField (name : String) (v : Json) : JsonValue :=
  ⟨.object [(name, v)], List.pairwise_singleton _ _⟩

/-- Of two fields one is the revision. -/
def revisionAnd (name : String) (v : Json) : Json := .object [(name, v), ("revision", .unsigned 1)]

end FileDB

end ZGalaxy
