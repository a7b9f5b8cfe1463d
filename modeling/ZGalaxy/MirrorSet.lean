/-
ZGalaxy/MirrorSet.lean

Databases that mirror each other.

A record that is saved is given to one database after another: by `save` itself, or by the listener
that the first database calls when it has been modified.  It is the same JSON object each time, and
each database that stores it counts its revision up; also, reading a field that is not there leaves
a null in it.  So the copies differ in their revisions from the first time that anything is stored,
and no pass of the sync checker ever evens that out: it saves a record with a greater revision
where there is one with a smaller, and saving ignores what differs in nothing but the revision.

Main result: `mirrored_iff`, that in a run the databases hold equal records, and a pass changes
nothing, exactly as long as nothing that is saved would be stored.
-/
import ZGalaxy.JsonEquality

namespace ZGalaxy

open DBNetwork

/-! ### Records that are read -/

namespace JsonRecord

theorem nameLt_trans (a b c : String) (hab : Json.nameLt a b = true)
    (hbc : Json.nameLt b c = true) : Json.nameLt a c = true :=
  decide_eq_true ((of_decide_eq_true hab).trans (of_decide_eq_true hbc))

theorem nameLt_total (a b : String) (hne : a ≠ b) (hlt : Json.nameLt a b = false) :
    Json.nameLt b a = true :=
  decide_eq_true (lt_of_le_of_ne (not_lt.mp (of_decide_eq_false hlt)) (Ne.symm hne))

/-- `record[name] = v`. -/
def set (r : JsonRecord) (name : String) (v : Json) : JsonRecord :=
  ⟨SortedMap.set Json.nameLt name v r.members, r.sorted.set nameLt_trans nameLt_total name v⟩

/-- `record[name]`, which leaves a null where there is nothing. -/
def touch (r : JsonRecord) (name : String) : JsonRecord :=
  if r.json.contains name then r else r.set name .null

/-- The record with its revision counted up. -/
def revised (r : JsonRecord) : JsonRecord :=
  r.set "revision" (.unsigned (jsonInt (r.json.get "revision") 0 + 1))

/-- Reading changes nothing that can be read. -/
@[simp] theorem get_touch (r : JsonRecord) (name name' : String) :
    (r.touch name).json.get name' = r.json.get name' := by
  rw [touch]
  split_ifs with h
  · rfl
  · show (r.json.set name .null).get name' = _
    rw [Json.get_set]
    split_ifs with hname
    · subst hname
      rw [Json.contains, Option.not_isSome_iff_eq_none] at h
      rw [Json.get_eq, h]
      rfl
    · rfl

theorem length_set (r : JsonRecord) {name : String} (h : r.json.contains name = false) (v : Json) :
    (r.set name v).members.length = r.members.length + 1 := by
  have hnone : SortedMap.get name r.members = none := by
    rw [← Option.not_isSome_iff_eq_none]
    exact Bool.eq_false_iff.mp h
  have hmodify : ∀ l : List (String × Json), SortedMap.get name l = none →
      (SortedMap.set Json.nameLt name v l).length = l.length + 1 := by
    intro l
    induction l with
    | nil => exact fun _ => rfl
    | cons e l ih =>
        intro hget
        rw [SortedMap.get_cons] at hget
        rw [SortedMap.set, SortedMap.modify]
        split_ifs at hget ⊢
        · rfl
        · rw [List.length_cons, List.length_cons]
          exact congrArg Nat.succ (ih hget)
  exact hmodify _ hnone

/-- A record only grows when it is read. -/
theorem length_le_touch (r : JsonRecord) (name : String) :
    r.members.length ≤ (r.touch name).members.length := by
  rw [touch]
  split_ifs with h
  · exact le_rfl
  · rw [length_set r (Bool.eq_false_iff.mpr h)]
    exact Nat.le_succ _

/-- If it has not grown, it is the same. -/
theorem touch_eq {r : JsonRecord} {name : String}
    (h : (r.touch name).members.length ≤ r.members.length) : r.touch name = r := by
  rw [touch] at h ⊢
  split_ifs at h ⊢ with hc
  · rfl
  · rw [length_set r (Bool.eq_false_iff.mpr hc)] at h
    exact absurd h (Nat.not_succ_le_self _)

/-- Where there is something, nothing is left by reading. -/
theorem touch_of_ne {r : JsonRecord} {name : String} (h : r.json.get name ≠ .null) :
    r.touch name = r := by
  rw [touch, if_pos]
  rw [Json.contains]
  by_contra hnot
  rw [Option.not_isSome_iff_eq_none] at hnot
  rw [Json.get_eq, hnot] at h
  exact h rfl

/-- What `_memberChanged` leaves of a record. -/
def memberRead (r : JsonRecord) : JsonRecord :=
  let r := ((r.touch "activeBridge").touch "authorized").touch "ipAssignments"
  if isAuthorized r.json then r else r.touch "lastDeauthorizedTime"

@[simp] theorem get_memberRead (r : JsonRecord) (name : String) :
    r.memberRead.json.get name = r.json.get name := by
  rw [memberRead]
  split_ifs
  · simp
  · simp

theorem memberRead_eq {r : JsonRecord} (h : r.memberRead.members.length ≤ r.members.length) :
    r.memberRead = r := by
  have h₁ := r.length_le_touch "activeBridge"
  have h₂ := (r.touch "activeBridge").length_le_touch "authorized"
  have h₃ := ((r.touch "activeBridge").touch "authorized").length_le_touch "ipAssignments"
  have h₄ := (((r.touch "activeBridge").touch "authorized").touch "ipAssignments").length_le_touch
    "lastDeauthorizedTime"
  rw [memberRead] at h ⊢
  split_ifs at h ⊢
  · rw [touch_eq ((h.trans h₁).trans h₂), touch_eq (h₃.trans (h.trans h₁)),
      touch_eq (h₂.trans (h₃.trans h))]
  · rw [touch_eq (((h.trans h₁).trans h₂).trans h₃), touch_eq (h₄.trans ((h.trans h₁).trans h₂)),
      touch_eq (h₃.trans (h₄.trans (h.trans h₁))), touch_eq (h₂.trans (h₃.trans (h₄.trans h)))]

end JsonRecord

/-! ### One database -/

namespace FileDB

/-- What a record is kept under. -/
inductive RecordKey
  | network (networkId : UInt64)
  | member (networkId memberId : UInt64)
deriving DecidableEq

/-- What the database holds; null where there is nothing. -/
def held (db : FileDB) : RecordKey → Json
  | .network networkId => db.getNetwork networkId
  | .member networkId memberId => db.getMember networkId memberId

/-- What a valid record is kept under. -/
def recordKey (record : Json) : Option RecordKey :=
  match (record.get "objtype").text with
  | some "network" =>
      ((record.get "id").text.map (CString.strtoull 16)).bind fun nwid =>
        if nwid = 0 then none else some (.network nwid)
  | some "member" =>
      let nwid := jsonIntHex (record.get "nwid") 0
      let id := jsonIntHex (record.get "id") 0
      if id = 0 ∨ nwid = 0 then none else some (.member nwid id)
  | _ => none

/-- What is left of a record that has been stored. -/
def RecordKey.left (r : JsonRecord) : RecordKey → JsonRecord
  | .network _ => r
  | .member _ _ => r.memberRead

/-- What `FileDB::save` leaves of the record. -/
def left (db : FileDB) (record : JsonRecord) : JsonRecord :=
  let r := record.touch "objtype"
  match (record.json.get "objtype").text with
  | some "network" =>
      let r := r.touch "id"
      let nwid := jsonIntHex (r.json.get "id") 0
      let old := db.getNetwork nwid
      if nwid ≠ 0 ∧ (!old.isObject ∨ !compareRecords old r.json) then r.revised else r
  | some "member" =>
      let r := (r.touch "id").touch "nwid"
      let id := jsonIntHex (r.json.get "id") 0
      let nwid := jsonIntHex (r.json.get "nwid") 0
      let old := db.getMember nwid id
      if (id ≠ 0 ∧ nwid ≠ 0) ∧ (!old.isObject ∨ !compareRecords old r.json) then
        r.revised.memberRead
      else r
  | _ => r

variable {pton : InetPton} {L : Type} {changeListeners : List L} {db : FileDB}

/-- The record is stored. -/
def Stores (db : FileDB) (key : RecordKey) (record : Json) : Prop :=
  (db.held key).isObject = false ∨ compareRecords (db.held key) record = false

theorem stores_iff {key : RecordKey} {record : Json} :
    db.Stores key record ↔
      (!(db.held key).isObject) = true ∨ (!compareRecords (db.held key) record) = true := by
  rw [Stores, Bool.not_eq_true', Bool.not_eq_true']

theorem not_stores_iff {key : RecordKey} {record : Json} :
    ¬db.Stores key record ↔
      (db.held key).isObject = true ∧ compareRecords (db.held key) record = true := by
  rw [Stores, not_or, Bool.not_eq_false, Bool.not_eq_false]

/-- What a record is kept under is told by what is read from it. -/
theorem recordKey_congr {a b : Json}
    (h : ∀ name ∈ ["objtype", "id", "nwid"], a.get name = b.get name) :
    recordKey a = recordKey b := by
  rw [recordKey, recordKey, h "objtype" (by decide), h "id" (by decide), h "nwid" (by decide)]

theorem recordKey_touch (r : JsonRecord) (name : String) :
    recordKey (r.touch name).json = recordKey r.json :=
  recordKey_congr fun _ _ => JsonRecord.get_touch r name _

theorem recordKey_memberRead (r : JsonRecord) : recordKey r.memberRead.json = recordKey r.json :=
  recordKey_congr fun _ _ => JsonRecord.get_memberRead r _

theorem recordKey_revised (r : JsonRecord) : recordKey r.revised.json = recordKey r.json := by
  refine recordKey_congr fun name hname => get_revised ?_
  rintro rfl
  exact absurd hname (by decide)

/-- The key of a record of a network. -/
theorem recordKey_network {record : Json} (htype : (record.get "objtype").text = some "network")
    {ids : String} (hids : (record.get "id").text = some ids) :
    recordKey record = if CString.strtoull 16 ids = 0 then none
      else some (.network (CString.strtoull 16 ids)) := by
  rw [recordKey, htype]
  dsimp only
  rw [hids]
  rfl

theorem recordKey_member {record : Json} (htype : (record.get "objtype").text = some "member") :
    recordKey record =
      if jsonIntHex (record.get "id") 0 = 0 ∨ jsonIntHex (record.get "nwid") 0 = 0 then none
      else some (.member (jsonIntHex (record.get "nwid") 0) (jsonIntHex (record.get "id") 0)) := by
  rw [recordKey, htype]
  rfl

/-- A record with a key is for a network or for a member. -/
theorem recordKey_cases {record : Json} {key : RecordKey} (h : recordKey record = some key) :
    (∃ ids, (record.get "objtype").text = some "network" ∧ (record.get "id").text = some ids ∧
        CString.strtoull 16 ids ≠ 0 ∧ jsonIntHex (record.get "id") 0 = CString.strtoull 16 ids ∧
        key = .network (CString.strtoull 16 ids)) ∨
      ∃ nwid id, memberTarget record = some (nwid, id) ∧ key = .member nwid id := by
  by_cases hnetwork : (record.get "objtype").text = some "network"
  · rcases hids : (record.get "id").text with - | ids
    · rw [recordKey, hnetwork] at h
      dsimp only at h
      rw [hids] at h
      cases h
    · rw [recordKey_network hnetwork hids] at h
      split_ifs at h with h0
      exact Or.inl ⟨ids, hnetwork, rfl, h0, jsonIntHex_of_text hids 0, (Option.some.inj h).symm⟩
  · by_cases hmember : (record.get "objtype").text = some "member"
    · rw [recordKey_member hmember] at h
      split_ifs at h with h0
      rw [not_or] at h0
      exact Or.inr ⟨_, _, memberTarget_eq_some.mpr ⟨hmember, rfl, rfl, h0.1, h0.2⟩,
        (Option.some.inj h).symm⟩
    · rw [recordKey] at h
      split at h
      · exact absurd ‹_› hnetwork
      · exact absurd ‹_› hmember
      · cases h

/-- Another configuration of a network. -/
theorem held_networkChanged {db' : FileDB} {nwid : UInt64} {config : Json}
    (h : Changed db nwid
      (some { (db.networks.get nwid).getD DBNetwork.empty with config := config }) db')
    (key : RecordKey) :
    db'.held key = if key = .network nwid then config else db.held key := by
  cases key with
  | network n =>
      show db'.getNetwork n = _
      rw [getNetwork, h n]
      by_cases hn : n = nwid
      · rw [if_pos hn, if_pos (congrArg RecordKey.network hn)]
        rfl
      · rw [if_neg hn, if_neg fun heq => hn (RecordKey.network.inj heq)]
        rfl
  | member n id =>
      rw [if_neg (by simp)]
      show db'.getMember n id = db.getMember n id
      rw [getMember_eq, getMember_eq, record_changed h]
      split_ifs with hn
      · subst hn
        show (((db.networks.get n).getD DBNetwork.empty).members.get id).getD Json.null = _
        rw [members_getD]
      · rfl

/-- Another record of a member. -/
theorem held_memberChanged {db' : FileDB} {nwid id : UInt64} {record : Json}
    (h : Changed db nwid
      (some (refile pton ((db.networks.get nwid).getD DBNetwork.empty) id record)) db')
    (key : RecordKey) :
    db'.held key = if key = .member nwid id then record else db.held key := by
  cases key with
  | network n =>
      rw [if_neg (by simp)]
      show db'.getNetwork n = db.getNetwork n
      rw [getNetwork, h n, getNetwork]
      split_ifs with hn
      · subst hn
        have hconfig : ∀ nw : DBNetwork, (refile pton nw id record).config = nw.config := by
          intro nw
          rw [refile]
          cases nw.members.get id <;> rfl
        rw [Option.map_some, Option.getD_some, hconfig]
        rcases db.networks.get n with - | nw
        · rfl
        · rfl
      · rfl
  | member n id' =>
      show db'.getMember n id' = if _ then _ else db.getMember n id'
      rw [getMember_eq, getMember_eq, record_changed h]
      by_cases hn : n = nwid
      · subst hn
        rw [if_pos rfl, Option.bind_some, members_refile]
        by_cases hid : id' = id
        · subst hid
          rw [Function.update_self, if_pos rfl]
          rfl
        · rw [Function.update_of_ne hid, members_getD,
            if_neg fun heq => hid (RecordKey.member.inj heq).2]
      · rw [if_neg hn, if_neg fun heq => hn (RecordKey.member.inj heq).1]

section Saving

variable {record : JsonRecord} (notify : Bool)

/-- What else is not saved. -/
theorem save_of_type (hnetwork : (record.json.get "objtype").text ≠ some "network")
    (hmember : (record.json.get "objtype").text ≠ some "member") :
    db.save pton changeListeners record.json notify = ((db, []), false) := by
  rw [save]
  split
  · exact absurd ‹_› hnetwork
  · exact absurd ‹_› hmember
  · rfl

/-- An invalid record is dropped. -/
theorem save_of_none (h : recordKey record.json = none) :
    db.save pton changeListeners record.json notify = ((db, []), false) := by
  by_cases hnetwork : (record.json.get "objtype").text = some "network"
  · rcases hids : (record.json.get "id").text with - | ids
    · have hthrows : networkChanged changeListeners db
          (db.getNetwork (jsonIntHex (record.json.get "id") 0)) (FileDB.revised record.json)
            notify = none := by
        have hobj : (FileDB.revised record.json).isObject = true := rfl
        rw [networkChanged, if_pos hobj, get_revised (by decide), hids]
        rfl
      simp only [save, hnetwork]
      rw [hthrows]
      split_ifs
      · rfl
      · rfl
    · rw [recordKey_network hnetwork hids] at h
      split_ifs at h with h0
      simp only [save, hnetwork]
      rw [jsonIntHex_of_text hids, h0, if_neg fun hand => hand.1 rfl]
  · by_cases hmember : (record.json.get "objtype").text = some "member"
    · rw [recordKey_member hmember] at h
      split_ifs at h with h0
      simp only [save, hmember]
      rw [if_neg fun hand => h0.elim hand.1.1 hand.1.2]
    · exact save_of_type notify hnetwork hmember

variable {key : RecordKey} (hkey : recordKey record.json = some key)
include hkey

/-- A record that is the same as the one that is held is not stored. -/
theorem save_of_same (h : ¬db.Stores key record.json) :
    db.save pton changeListeners record.json notify = ((db, []), false) := by
  rw [stores_iff] at h
  rcases recordKey_cases hkey with ⟨ids, htype, hids, h0, hhex, rfl⟩ | ⟨nwid, id, htarget, rfl⟩
  · simp only [save, htype]
    rw [hhex, if_neg fun hand => h hand.2]
  · obtain ⟨htype, rfl, rfl, -, -⟩ := memberTarget_eq_some.mp htarget
    simp only [save, htype]
    rw [if_neg fun hand => h hand.2]

variable (pton changeListeners) in
/-- **What storing a record does.** -/
theorem save_of_stores (hdb : AllFiled db) (h : db.Stores key record.json) :
    (db.save pton changeListeners record.json notify).2 = true ∧
      AllFiled (db.save pton changeListeners record.json notify).1.1 ∧
      ∀ key', (db.save pton changeListeners record.json notify).1.1.held key' =
        if key' = key then record.revised.json else db.held key' := by
  have heffect : Effect pton changeListeners db (.save record notify)
      (db.save pton changeListeners record.json notify).1.1
      (db.save pton changeListeners record.json notify).1.2 := save_effect hdb record notify
  have hfiled := hdb.step heffect
  rw [stores_iff] at h
  rcases recordKey_cases hkey with ⟨ids, htype, hids, h0, hhex, rfl⟩ | ⟨nwid, id, htarget, rfl⟩
  · -- a network
    have hobj : (FileDB.revised record.json).isObject = true := rfl
    obtain ⟨calls, hchanged⟩ : ∃ calls, networkChanged changeListeners db
        (db.getNetwork (CString.strtoull 16 ids)) (FileDB.revised record.json) notify =
          some (db.setNetwork (CString.strtoull 16 ids)
            { (db.networks.get (CString.strtoull 16 ids)).getD DBNetwork.empty with
              config := FileDB.revised record.json }, calls) := by
      refine ⟨if notify then changeListeners.map (.onNetworkUpdate · (CString.strtoull 16 ids)
        (FileDB.revised record.json)) else [], ?_⟩
      rw [networkChanged, if_pos hobj, get_revised (by decide), hids, Option.map_some]
      dsimp only
      rw [if_pos h0]
    have hsave : db.save pton changeListeners record.json notify =
        ((db.setNetwork (CString.strtoull 16 ids)
          { (db.networks.get (CString.strtoull 16 ids)).getD DBNetwork.empty with
            config := FileDB.revised record.json }, calls), true) := by
      simp only [save, htype]
      rw [hhex, if_pos ⟨h0, h⟩, hchanged]
    rw [hsave] at hfiled ⊢
    exact ⟨rfl, hfiled, held_networkChanged (changed_setNetwork db _ _)⟩
  · -- a member
    have hmodified : (db.save pton changeListeners record.json notify).2 = true := by
      obtain ⟨htype, rfl, rfl, hid, hnwid⟩ := memberTarget_eq_some.mp htarget
      simp only [save, htype]
      rw [if_pos ⟨⟨hid, hnwid⟩, h⟩]
    refine ⟨hmodified, hfiled, ?_⟩
    generalize db.save pton changeListeners record.json notify = r at heffect
    obtain ⟨⟨db', calls⟩, modified⟩ := r
    cases heffect with
    | ignored _ _ hnone =>
        rw [htarget] at hnone
        cases hnone
    | networkSaved _ _ _ _ _ hnone =>
        rw [htarget] at hnone
        cases hnone
    | memberSame _ _ nwid' id' kept htarget' hkept hsame =>
        rw [htarget] at htarget'
        obtain ⟨rfl, rfl⟩ := Prod.mk.inj (Option.some.inj htarget')
        have hheld : db'.held (.member nwid id) = kept := by
          show db'.getMember nwid id = kept
          rw [getMember_eq, hkept, Option.getD_some]
        -- a record that counts as the same is not stored
        obtain ⟨nw, hnw, hmem⟩ := record_eq_some hkept
        rw [hheld, ((hdb nwid nw hnw).kept hmem).1, hsame] at h
        simp at h
    | memberSaved _ _ nwid' id' _ htarget' _ hchanged =>
        rw [htarget] at htarget'
        obtain ⟨rfl, rfl⟩ := Prod.mk.inj (Option.some.inj htarget')
        exact held_memberChanged hchanged

omit hkey in
/-- What is left of a record is kept under the same key. -/
theorem recordKey_left (db : FileDB) (record : JsonRecord) :
    recordKey (db.left record).json = recordKey record.json := by
  rw [left]
  dsimp only
  split
  · split_ifs
    · rw [recordKey_revised, recordKey_touch, recordKey_touch]
    · rw [recordKey_touch, recordKey_touch]
  · split_ifs
    · rw [recordKey_memberRead, recordKey_revised, recordKey_touch, recordKey_touch,
        recordKey_touch]
    · rw [recordKey_touch, recordKey_touch, recordKey_touch]
  · rw [recordKey_touch]

/-- A valid record has all that saving it looks for. -/
theorem left_eq : db.left record =
    if (!(db.held key).isObject) = true ∨ (!compareRecords (db.held key) record.json) = true then
      key.left record.revised
    else record := by
  have hnull : ∀ {name : String}, (record.json.get name).text ≠ none →
      record.json.get name ≠ .null := by
    intro name htext heq
    rw [heq] at htext
    exact htext rfl
  have hzero : ∀ {name : String}, jsonIntHex (record.json.get name) 0 ≠ 0 →
      record.json.get name ≠ .null := by
    intro name hne heq
    rw [heq] at hne
    exact hne rfl
  rcases recordKey_cases hkey with ⟨ids, htype, hids, h0, hhex, rfl⟩ | ⟨nwid, id, htarget, rfl⟩
  · have htouch : (record.touch "objtype").touch "id" = record := by
      rw [JsonRecord.touch_of_ne (hnull (htype ▸ Option.some_ne_none _)),
        JsonRecord.touch_of_ne (hnull (hids ▸ Option.some_ne_none _))]
    simp only [left, htype, htouch]
    rw [hhex]
    refine if_congr (and_iff_right h0) rfl rfl
  · obtain ⟨htype, rfl, rfl, hid, hnwid⟩ := memberTarget_eq_some.mp htarget
    have htouch : ((record.touch "objtype").touch "id").touch "nwid" = record := by
      rw [JsonRecord.touch_of_ne (hnull (htype ▸ Option.some_ne_none _)),
        JsonRecord.touch_of_ne (hzero hid), JsonRecord.touch_of_ne (hzero hnwid)]
    simp only [left, htype, htouch]
    refine if_congr (and_iff_right ⟨hid, hnwid⟩) rfl rfl

theorem left_of_same (h : ¬db.Stores key record.json) : db.left record = record := by
  rw [left_eq hkey, if_neg (fun hs => h (stores_iff.mpr hs))]

theorem left_of_stores (h : db.Stores key record.json) :
    db.left record = key.left record.revised := by
  rw [left_eq hkey, if_pos (stores_iff.mp h)]

end Saving

/-! ### Records that change nothing -/

/-- The databases hold records that say the same. -/
def Alike (db db' : FileDB) : Prop := ∀ key, Json.Same (db.held key) (db'.held key)

theorem Alike.refl (db : FileDB) : db.Alike db := fun _ => Json.Same.refl _

theorem Alike.symm {db db' : FileDB} (h : db.Alike db') : db'.Alike db :=
  fun key => (h key).symm

theorem Alike.trans {db db' db'' : FileDB} (h : db.Alike db') (h' : db'.Alike db'') :
    db.Alike db'' := fun key => (h key).trans (h' key)

/-- Saving the record leaves what is held: the record is invalid; or it is the same as the one that
is held, but for the revision; or else it would be stored as just the one that is held, and reading
it leaves nothing in it. -/
def Unchanging (db : FileDB) (record : JsonRecord) : Prop :=
  ∀ key, recordKey record.json = some key → (db.held key).isObject = true ∧
    (compareRecords (db.held key) record.json = true ∨
      Json.Same (db.held key) record.revised.json ∧ key.left record.revised = record.revised)

variable {record : JsonRecord} {key : RecordKey}

/-- A record that is the same as what is held of it changes nothing. -/
theorem unchanging_of_same (hkey : recordKey record.json = some key)
    (h : Json.Same (db.held key) record.json) : db.Unchanging record := by
  intro key' hkey'
  obtain rfl := Option.some.inj (hkey.symm.trans hkey')
  exact ⟨h.isObject, Or.inl (compareRecords_of_same h)⟩

/-- A record that changes nothing, and is stored nevertheless. -/
theorem Unchanging.stored (h : db.Unchanging record) (hkey : recordKey record.json = some key)
    (hstores : db.Stores key record.json) :
    Json.Same (db.held key) record.revised.json ∧ db.left record = record.revised := by
  obtain ⟨hobj, hor⟩ := h key hkey
  obtain ⟨hsame, hleft⟩ :=
    hor.resolve_left fun hcompare => not_stores_iff.mpr ⟨hobj, hcompare⟩ hstores
  exact ⟨hsame, (left_of_stores hkey hstores).trans hleft⟩

/-- An invalid record changes nothing. -/
theorem unchanging_of_none (h : recordKey record.json = none) : db.Unchanging record := by
  intro key hkey
  rw [h] at hkey
  cases hkey

/-- **What is left of a record that changes nothing** changes nothing in another database. -/
theorem Unchanging.left {db2 : FileDB} (h : db.Unchanging record) (hlike : db.Alike db2)
    (h2 : db2.Unchanging record) : db2.Unchanging (db.left record) := by
  rcases hkey : recordKey record.json with - | key
  · exact unchanging_of_none ((recordKey_left db record).trans hkey)
  · by_cases hstores : db.Stores key record.json
    · obtain ⟨hsame, hleft⟩ := h.stored hkey hstores
      rw [hleft]
      exact unchanging_of_same ((recordKey_revised record).trans hkey) ((hlike key).symm.trans hsame)
    · rw [left_of_same hkey hstores]
      exact h2

variable (pton changeListeners) in
/-- **A record that changes nothing** leaves records that say the same. -/
theorem Unchanging.save (h : db.Unchanging record) (hdb : AllFiled db) (notify : Bool) :
    AllFiled (db.save pton changeListeners record.json notify).1.1 ∧
      db.Alike (db.save pton changeListeners record.json notify).1.1 := by
  rcases hkey : recordKey record.json with - | key
  · rw [save_of_none notify hkey]
    exact ⟨hdb, Alike.refl db⟩
  · by_cases hstores : db.Stores key record.json
    · obtain ⟨-, hfiled, hheld⟩ :=
        save_of_stores pton changeListeners notify hkey hdb hstores
      refine ⟨hfiled, fun key' => ?_⟩
      rw [hheld]
      split_ifs with hk
      · exact hk ▸ (h.stored hkey hstores).1
      · exact Json.Same.refl _
    · rw [save_of_same notify hkey hstores]
      exact ⟨hdb, Alike.refl db⟩

/-- What is not modified by saving a record stays as it is. -/
theorem save_eq_of_not_modified (hdb : AllFiled db) {notify : Bool}
    (h : (db.save pton changeListeners record.json notify).2 = false) :
    (db.save pton changeListeners record.json notify).1.1 = db := by
  rcases hkey : recordKey record.json with - | key
  · rw [save_of_none notify hkey]
  · by_cases hstores : db.Stores key record.json
    · rw [(save_of_stores pton changeListeners notify hkey hdb hstores).1] at h
      cases h
    · rw [save_of_same notify hkey hstores]

end FileDB

/-! ### The mirror set -/

namespace DBMirrorSet

variable (pton : InetPton)

/-- The record is saved in one database after another: the databases, the record, and whether any
was modified. -/
def saveEach (record : JsonRecord) : List FileDB → List FileDB × JsonRecord × Bool
  | [] => ([], record, false)
  | db :: dbs =>
      let r := db.save pton [()] record.json false
      let rest := saveEach (db.left record) dbs
      (r.1.1 :: rest.1, rest.2.1, r.2 || rest.2.2)

/-- `DBMirrorSet::onNetworkUpdate` and `DBMirrorSet::onNetworkMemberUpdate`: the record is saved in
the other databases, which are `before` and `after`. -/
def onUpdate (db : FileDB) (record : JsonRecord) (before after : List FileDB) : List FileDB :=
  let others := (saveEach pton record (before ++ after)).1
  others.take before.length ++ db :: others.drop before.length

/-- The databases after `before`, until one is modified and calls its listener. -/
def saveNotifying (record : JsonRecord) (before : List FileDB) : List FileDB → List FileDB × Bool
  | [] => (before, false)
  | db :: dbs =>
      let r := db.save pton [()] record.json true
      if r.2 then (onUpdate pton r.1.1 (db.left record) before dbs, true)
      else saveNotifying (db.left record) (before ++ [r.1.1]) dbs

/-- `DBMirrorSet::save`. -/
def save (dbs : List FileDB) (record : JsonRecord) (notifyListeners : Bool) : List FileDB × Bool :=
  if notifyListeners then saveNotifying pton record [] dbs
  else
    let r := saveEach pton record dbs
    (r.1, r.2.2)

/-- What `DB::each` gives for a network, and for each of its members again. -/
structure Entry where
  networkId : UInt64
  network : Json
  memberId : UInt64
  member : Json

/-- `DB::each`. -/
def each (db : FileDB) : List Entry :=
  db.networks.entries.flatMap fun n =>
    ⟨n.1, n.2.config, 0, .null⟩ :: n.2.members.entries.map fun m => ⟨n.1, n.2.config, m.1, m.2⟩

/-- A record is older than another one, as its revision says. -/
def isOlder (record record' : Json) : Bool :=
  record.isObject && jsonInt (record.get "revision") 0 < jsonInt (record'.get "revision") 0

/-- What the sync checker does in `db2` with what it has found in another database. -/
def syncEntry (e : Entry) (db2 : FileDB) : FileDB :=
  if e.network.isObject then
    if e.memberId = 0 then
      if (db2.networks.get e.networkId).isNone ||
          isOlder (db2.getNetwork e.networkId) e.network then
        (db2.save pton [()] e.network false).1.1
      else db2
    else if e.member.isObject then
      if (db2.record e.networkId e.memberId).isNone ||
          isOlder (db2.getMember e.networkId e.memberId) e.member then
        (db2.save pton [()] e.member false).1.1
      else db2
    else db2
  else db2

/-- The sync checker, with the database at `i`. -/
def syncFrom (dbs : List FileDB) (i : ℕ) : List FileDB :=
  match dbs[i]? with
  | none => dbs
  | some db =>
      (each db).foldl (fun dbs e => dbs.mapIdx fun j db2 =>
        if j = i then db2 else syncEntry pton e db2) dbs

/-- A pass of the sync checker. -/
def syncPass (dbs : List FileDB) : List FileDB :=
  if dbs.length ≤ 1 then dbs else (List.range dbs.length).foldl (syncFrom pton) dbs

/-- What happens to the databases. -/
inductive Event
  | save (record : JsonRecord) (notifyListeners : Bool)
  | syncPass

def step (dbs : List FileDB) : Event → List FileDB
  | .save record notifyListeners => (save pton dbs record notifyListeners).1
  | .syncPass => syncPass pton dbs

def run (dbs : List FileDB) (es : List Event) : List FileDB := es.foldl (step pton) dbs

/-! ### Equal records stay equal -/

variable {pton}

/-- All databases hold equal records. -/
def Agree (dbs : List FileDB) : Prop := ∀ db ∈ dbs, ∀ db' ∈ dbs, db.Alike db'

/-- All hold what `base` holds, under the right keys. -/
def Mirrors (base : FileDB) (dbs : List FileDB) : Prop :=
  ∀ db ∈ dbs, FileDB.AllFiled db ∧ base.Alike db

variable {base : FileDB} {dbs : List FileDB} {record : JsonRecord}

theorem Mirrors.agree (h : Mirrors base dbs) : Agree dbs :=
  fun db hdb db' hdb' => (h db hdb).2.symm.trans (h db' hdb').2

theorem mirrors_cons {db : FileDB} :
    Mirrors base (db :: dbs) ↔ (FileDB.AllFiled db ∧ base.Alike db) ∧ Mirrors base dbs :=
  List.forall_mem_cons

theorem mirrors_append {dbs' : List FileDB} :
    Mirrors base (dbs ++ dbs') ↔ Mirrors base dbs ∧ Mirrors base dbs' :=
  List.forall_mem_append

/-- The record changes nothing in any of the databases. -/
def AllUnchanging (dbs : List FileDB) (record : JsonRecord) : Prop :=
  ∀ db ∈ dbs, db.Unchanging record

/-- What one of the databases leaves of it changes nothing either. -/
theorem AllUnchanging.left {db : FileDB} (h : AllUnchanging dbs record) (hdbs : Mirrors base dbs)
    (hlike : base.Alike db) (hdb : db.Unchanging record) : AllUnchanging dbs (db.left record) :=
  fun db2 hdb2 => hdb.left (hlike.symm.trans (hdbs db2 hdb2).2) (h db2 hdb2)

variable (pton) in
theorem saveEach_unchanging (hdbs : Mirrors base dbs) (h : AllUnchanging dbs record) :
    Mirrors base (saveEach pton record dbs).1 ∧
      (saveEach pton record dbs).1.length = dbs.length := by
  induction dbs generalizing record with
  | nil => exact ⟨fun db hdb => absurd hdb List.not_mem_nil, rfl⟩
  | cons db dbs ih =>
      obtain ⟨⟨hdb, hlike⟩, hdbs⟩ := mirrors_cons.mp hdbs
      obtain ⟨hone, hrest⟩ := List.forall_mem_cons.mp h
      obtain ⟨hfiled, hlike'⟩ := hone.save pton [()] hdb false
      obtain ⟨hmirrors, hlength⟩ := ih hdbs (AllUnchanging.left hrest hdbs hlike hone)
      exact ⟨mirrors_cons.mpr ⟨⟨hfiled, hlike.trans hlike'⟩, hmirrors⟩, congrArg Nat.succ hlength⟩

variable (pton) in
theorem saveNotifying_unchanging {before : List FileDB} (hbefore : Mirrors base before)
    (hdbs : Mirrors base dbs) (h : AllUnchanging before record) (h' : AllUnchanging dbs record) :
    Mirrors base (saveNotifying pton record before dbs).1 ∧
      (saveNotifying pton record before dbs).1.length = before.length + dbs.length := by
  -- on the databases still to be told: those told go to `before`
  induction dbs generalizing record before with
  | nil => exact ⟨hbefore, rfl⟩
  | cons db dbs ih =>
      obtain ⟨⟨hdb, hlike⟩, hdbs⟩ := mirrors_cons.mp hdbs
      obtain ⟨hone, hrest⟩ := List.forall_mem_cons.mp h'
      obtain ⟨hfiled, hlike'⟩ := hone.save pton [()] hdb true
      have hleft := AllUnchanging.left h hbefore hlike hone
      have hleft' := AllUnchanging.left hrest hdbs hlike hone
      rw [saveNotifying]
      split_ifs with hmodified
      · obtain ⟨hothers, hlength⟩ := saveEach_unchanging pton
          (mirrors_append.mpr ⟨hbefore, hdbs⟩) (List.forall_mem_append.mpr ⟨hleft, hleft'⟩)
        rw [onUpdate]
        refine ⟨mirrors_append.mpr ⟨?_, mirrors_cons.mpr ⟨⟨hfiled, hlike.trans hlike'⟩, ?_⟩⟩, ?_⟩
        · exact fun db hdb => hothers db (List.mem_of_mem_take hdb)
        · exact fun db hdb => hothers db (List.mem_of_mem_drop hdb)
        · rw [List.length_append, List.length_cons, ← Nat.add_assoc, ← List.length_append,
            List.take_append_drop, hlength, List.length_append, List.length_cons, Nat.add_assoc]
      · -- the database is not modified, and goes on to the others
        have heq := FileDB.save_eq_of_not_modified hdb (Bool.eq_false_iff.mpr hmodified)
        rw [heq] at *
        have hbefore' := mirrors_append.mpr ⟨hbefore, mirrors_cons.mpr
          ⟨⟨hdb, hlike⟩, fun db hdb => absurd hdb List.not_mem_nil⟩⟩
        have hleft'' : AllUnchanging (before ++ [db]) (db.left record) :=
          List.forall_mem_append.mpr ⟨hleft, List.forall_mem_singleton.mpr
            (hone.left (FileDB.Alike.refl db) hone)⟩
        obtain ⟨hmirrors, hlength⟩ := ih hbefore' hdbs hleft'' hleft'
        refine ⟨hmirrors, hlength.trans ?_⟩
        rw [List.length_append, List.length_cons, List.length_cons, List.length_nil]
        omega

variable (pton) in
/-- **Saving a record that changes nothing.** -/
theorem save_unchanging (hdbs : Mirrors base dbs) (h : AllUnchanging dbs record) (notify : Bool) :
    Mirrors base (save pton dbs record notify).1 ∧
      (save pton dbs record notify).1.length = dbs.length := by
  rw [save]
  split_ifs
  · have hnone : Mirrors base [] := fun db hdb => absurd hdb List.not_mem_nil
    obtain ⟨hmirrors, hlength⟩ := saveNotifying_unchanging pton hnone hdbs
      (fun db hdb => absurd hdb List.not_mem_nil) h
    exact ⟨hmirrors, hlength.trans (Nat.zero_add _)⟩
  · exact saveEach_unchanging pton hdbs h

/-! ### A pass of the sync checker -/

theorem isOlder_of_same {a b : Json} (h : Json.Same a b) : isOlder a b = false := by
  rw [isOlder, jsonInt_of_same (h.get "revision"), Bool.and_eq_false_iff]
  exact Or.inr (decide_eq_false (UInt64.lt_irrefl _))

/-- What is given for a network is what is held of it. -/
theorem each_held {db : FileDB} {e : Entry} (he : e ∈ each db) :
    e.network = db.held (.network e.networkId) ∧
      (e.memberId ≠ 0 → e.member = db.held (.member e.networkId e.memberId)) := by
  obtain ⟨n, hn, he⟩ := List.mem_flatMap.mp he
  have hget : db.networks.get n.1 = some n.2 := db.networks.mem_entries_iff.mp hn
  have hnetwork : n.2.config = db.held (.network n.1) := by
    show n.2.config = db.getNetwork n.1
    rw [FileDB.getNetwork, hget]
    rfl
  rcases List.mem_cons.mp he with rfl | he
  · exact ⟨hnetwork, fun hne => absurd rfl hne⟩
  · obtain ⟨m, hm, rfl⟩ := List.mem_map.mp he
    refine ⟨hnetwork, fun _ => ?_⟩
    show m.2 = db.getMember n.1 m.1
    rw [FileDB.getMember, hget, Option.bind_some, n.2.members.mem_entries_iff.mp hm]
    rfl

/-- What is there in one of two databases that hold equal records is there in the other. -/
theorem syncEntry_eq {db db2 : FileDB} (hlike : db2.Alike db) {e : Entry} (he : e ∈ each db) :
    syncEntry pton e db2 = db2 := by
  obtain ⟨hnetwork, hmember⟩ := each_held he
  rw [syncEntry]
  split_ifs with hobj hid hold hobj' hold
  · -- the network
    have hsame := hlike (.network e.networkId)
    rw [← hnetwork] at hsame
    have hheld : db2.getNetwork e.networkId = db2.held (.network e.networkId) := rfl
    rw [hheld, isOlder_of_same hsame, Bool.or_false, Option.isNone_iff_eq_none] at hold
    have hnull : db2.held (.network e.networkId) = .null := by
      show db2.getNetwork e.networkId = .null
      rw [FileDB.getNetwork, hold]
      rfl
    rw [← hsame.isObject, hnull] at hobj
    cases hobj
  · rfl
  · -- the member
    have hsame := hlike (.member e.networkId e.memberId)
    rw [← hmember hid] at hsame
    have hheld : db2.getMember e.networkId e.memberId =
      db2.held (.member e.networkId e.memberId) := rfl
    rw [hheld, isOlder_of_same hsame, Bool.or_false, Option.isNone_iff_eq_none] at hold
    have hnull : db2.held (.member e.networkId e.memberId) = .null := by
      show db2.getMember e.networkId e.memberId = .null
      rw [FileDB.getMember_eq, hold]
      rfl
    rw [← hsame.isObject, hnull] at hobj'
    cases hobj'
  · rfl
  · rfl
  · rfl

theorem syncFrom_eq (hdbs : Agree dbs) (i : ℕ) : syncFrom pton dbs i = dbs := by
  rw [syncFrom]
  rcases hi : dbs[i]? with - | db
  · rfl
  · have hdb : db ∈ dbs := List.mem_of_getElem? hi
    have hone : ∀ e ∈ each db, (dbs.mapIdx fun j db2 =>
        if j = i then db2 else syncEntry pton e db2) = dbs := by
      intro e he
      refine List.ext_getElem? fun j => ?_
      rw [List.getElem?_mapIdx]
      rcases hj : dbs[j]? with - | db2
      · rfl
      · rw [Option.map_some, syncEntry_eq (hdbs db2 (List.mem_of_getElem? hj) db hdb) he, ite_self]
    have hall : ∀ es : List Entry, es ⊆ each db → (es.foldl (fun dbs e => dbs.mapIdx fun j db2 =>
        if j = i then db2 else syncEntry pton e db2) dbs) = dbs := by
      intro es
      induction es with
      | nil => exact fun _ => rfl
      | cons e es ih =>
          intro hes
          rw [List.foldl_cons, hone e (hes List.mem_cons_self)]
          exact ih fun e' he' => hes (List.mem_cons_of_mem _ he')
    exact hall _ (List.Subset.refl _)

/-- **A pass of the sync checker** changes nothing where the records are equal. -/
theorem syncPass_eq (hdbs : Agree dbs) : syncPass pton dbs = dbs := by
  rw [syncPass]
  split_ifs
  · rfl
  · exact List.foldl_fixed' (syncFrom_eq hdbs) _

/-! ### Revisions that differ -/

theorem ne_add_one (n : UInt64) : n ≠ n + 1 := by grind

theorem jsonInt_revised (r : JsonRecord) :
    jsonInt (r.revised.json.get "revision") 0 = jsonInt (r.json.get "revision") 0 + 1 := by
  have hget : r.revised.json.get "revision" = _ :=
    (Json.get_set r.json "revision" "revision" _).trans (if_pos rfl)
  rw [hget]
  rfl

theorem get_left (key : FileDB.RecordKey) (r : JsonRecord) (name : String) :
    (key.left r).json.get name = r.json.get name := by
  cases key with
  | network => rfl
  | member => exact JsonRecord.get_memberRead r name

theorem left_eq_of_length {key : FileDB.RecordKey} {r : JsonRecord}
    (h : (key.left r).members.length ≤ r.members.length) : key.left r = r := by
  cases key with
  | network => rfl
  | member => exact JsonRecord.memberRead_eq h

/-- What one database takes for the record it holds, another one that holds the same takes for it
too, if storing the record would change nothing. -/
theorem compare_of_kept {d x : FileDB} {key : FileDB.RecordKey}
    (hd : (d.held key).isObject = true) (hlike : d.Alike x)
    (hkept : compareRecords (x.held key) record.json = true)
    (hsame : Json.Same (x.held key) record.revised.json) :
    compareRecords (d.held key) record.json = true := by
  have hlengthKept := ((compareRecords_iff ((hlike key).isObject.symm.trans hd) rfl).mp hkept).1
  have hcompare := (compareRecords_iff hd rfl).mp
    (compareRecords_of_same ((hlike key).trans hsame))
  refine (compareRecords_iff hd rfl).mpr ⟨(hlike key).length_members.trans hlengthKept, ?_⟩
  intro e he
  have hagrees := hcompare.2 e he
  rw [agrees, Bool.or_eq_true] at hagrees ⊢
  by_cases hname : e.1 = "revision"
  · exact Or.inl (beq_iff_eq.mpr hname)
  · -- the revision is all that storing a record changes
    refine hagrees.imp_right fun hany => ?_
    have hget : SortedMap.get e.1 record.revised.json.members =
        SortedMap.get e.1 record.json.members :=
      (SortedMap.get_set _ _ _ _ _).trans (if_neg hname)
    rwa [hget] at hany

variable (pton) in
/-- What is left of a record that has been stored is stored by the next database, with its revision
counted up once more; or else that database holds it already. -/
theorem same_of_next {x : FileDB} {key : FileDB.RecordKey} (hx : FileDB.AllFiled x)
    (hkey : FileDB.recordKey record.json = some key)
    (hsame : Json.Same record.revised.json
      ((x.save pton [()] (key.left record.revised).json false).1.1.held key)) :
    Json.Same (x.held key) record.revised.json ∧ key.left record.revised = record.revised := by
  have hkey' : FileDB.recordKey (key.left record.revised).json = some key := by
    cases key with
    | network => exact (FileDB.recordKey_revised record).trans hkey
    | member =>
        exact (FileDB.recordKey_memberRead _).trans ((FileDB.recordKey_revised record).trans hkey)
  by_cases hstores : x.Stores key (key.left record.revised).json
  · obtain ⟨-, -, hheld⟩ := FileDB.save_of_stores pton [()] false hkey' hx hstores
    rw [hheld, if_pos rfl] at hsame
    have hrevision := jsonInt_of_same (hsame.get "revision") 0
    rw [jsonInt_revised, jsonInt_revised, get_left, jsonInt_revised] at hrevision
    exact absurd hrevision (ne_add_one _)
  · rw [FileDB.save_of_same false hkey' hstores] at hsame
    obtain ⟨hobj, hcompare⟩ := FileDB.not_stores_iff.mp hstores
    have hlength := ((compareRecords_iff hobj rfl).mp hcompare).1
    refine ⟨hsame.symm, left_eq_of_length ?_⟩
    exact (hsame.length_members.trans hlength).ge

variable (pton) in
/-- Databases that do not store a record give it on as it is. -/
theorem saveEach_append {key : FileDB.RecordKey} (hkey : FileDB.recordKey record.json = some key)
    {pre : List FileDB} (hpre : ∀ x ∈ pre, ¬x.Stores key record.json) (dbs : List FileDB) :
    (saveEach pton record (pre ++ dbs)).1 = pre ++ (saveEach pton record dbs).1 := by
  induction pre with
  | nil => rfl
  | cons x pre ih =>
      obtain ⟨hx, hpre⟩ := List.forall_mem_cons.mp hpre
      rw [List.cons_append, saveEach]
      dsimp only
      rw [FileDB.save_of_same false hkey hx, FileDB.left_of_same hkey hx, ih hpre, List.cons_append]

variable (pton) in
theorem saveNotifying_append {key : FileDB.RecordKey}
    (hkey : FileDB.recordKey record.json = some key) {pre : List FileDB}
    (hpre : ∀ x ∈ pre, ¬x.Stores key record.json) (before dbs : List FileDB) :
    saveNotifying pton record before (pre ++ dbs) =
      saveNotifying pton record (before ++ pre) dbs := by
  induction pre generalizing before with
  | nil => rw [List.nil_append, List.append_nil]
  | cons x pre ih =>
      obtain ⟨hx, hpre⟩ := List.forall_mem_cons.mp hpre
      rw [List.cons_append, saveNotifying, FileDB.save_of_same true hkey hx,
        FileDB.left_of_same hkey hx, if_neg Bool.false_ne_true, ih hpre, List.append_assoc,
        List.singleton_append]

/-- The first database that stores a record. -/
theorem exists_first {key : FileDB.RecordKey} (h : ∃ d ∈ dbs, d.Stores key record.json) :
    ∃ pre d post, dbs = pre ++ d :: post ∧ (∀ x ∈ pre, ¬x.Stores key record.json) ∧
      d.Stores key record.json := by
  induction dbs with
  | nil =>
      obtain ⟨d, hd, -⟩ := h
      cases hd
  | cons x dbs ih =>
      by_cases hx : x.Stores key record.json
      · exact ⟨[], x, dbs, rfl, fun _ hmem => absurd hmem List.not_mem_nil, hx⟩
      · have hrest : ∃ d ∈ dbs, d.Stores key record.json := by
          obtain ⟨d, hd, hstores⟩ := h
          rcases List.mem_cons.mp hd with rfl | hd
          · exact absurd hstores hx
          · exact ⟨d, hd, hstores⟩
        obtain ⟨pre, d, post, rfl, hpre, hd⟩ := ih hrest
        exact ⟨x :: pre, d, post, rfl, List.forall_mem_cons.mpr ⟨hx, hpre⟩, hd⟩

variable (pton) in
/-- **A record that one of the databases stores** makes two of them differ, unless one of them
holds just that already. -/
theorem same_of_agree {pre post : List FileDB} {d : FileDB} {key : FileDB.RecordKey}
    (hdbs : Mirrors base (pre ++ d :: post)) (hlength : 2 ≤ (pre ++ d :: post).length)
    (hkey : FileDB.recordKey record.json = some key)
    (hpre : ∀ x ∈ pre, ¬x.Stores key record.json) (hd : d.Stores key record.json) {notify : Bool}
    (hagree : Agree (save pton (pre ++ d :: post) record notify).1) :
    ∃ x ∈ pre ++ d :: post,
      Json.Same (x.held key) record.revised.json ∧ key.left record.revised = record.revised := by
  have hmem : d ∈ pre ++ d :: post := List.mem_append_right pre List.mem_cons_self
  obtain ⟨hmodified, -, hheld⟩ := FileDB.save_of_stores pton [()] notify hkey (hdbs d hmem).1 hd
  have hkept : (d.save pton [()] record.json notify).1.1.held key = record.revised.json :=
    (hheld key).trans (if_pos rfl)
  have hleft := FileDB.left_of_stores hkey hd
  -- the database that is saved next is enough
  have hnext : ∀ x ∈ pre ++ d :: post,
      (d.save pton [()] record.json notify).1.1.Alike
        (x.save pton [()] (key.left record.revised).json false).1.1 →
      Json.Same (x.held key) record.revised.json ∧ key.left record.revised = record.revised := by
    intro x hx hlike
    have hsame := hlike key
    rw [hkept] at hsame
    exact same_of_next pton (hdbs x hx).1 hkey hsame
  cases notify with
  | true =>
      rw [save, if_pos rfl, saveNotifying_append pton hkey hpre, List.nil_append, saveNotifying,
        if_pos hmodified, onUpdate, hleft] at hagree
      dsimp only at hagree
      obtain ⟨x, rest, hothers⟩ : ∃ x rest, pre ++ post = x :: rest := by
        refine List.exists_cons_of_length_pos ?_
        rw [List.length_append, List.length_cons] at hlength
        rw [List.length_append]
        omega
      have hx : x ∈ pre ++ d :: post := by
        have hx : x ∈ pre ++ post := hothers ▸ List.mem_cons_self
        exact List.mem_append.mpr ((List.mem_append.mp hx).imp_right (List.mem_cons_of_mem d))
      refine ⟨x, hx, hnext x hx (hagree _ ?_ _ ?_)⟩
      · exact List.mem_append_right _ List.mem_cons_self
      · rw [List.mem_append, List.mem_cons, or_left_comm, ← List.mem_append, List.take_append_drop,
          hothers, saveEach]
        exact Or.inr List.mem_cons_self
  | false =>
      rw [save, if_neg Bool.false_ne_true] at hagree
      dsimp only at hagree
      rw [saveEach_append pton hkey hpre, saveEach, hleft] at hagree
      have hsaved := List.mem_append_right pre (List.mem_cons_self
        (a := (d.save pton [()] record.json false).1.1)
        (l := (saveEach pton (key.left record.revised) post).1))
      cases post with
      | cons x post =>
          have hx : x ∈ pre ++ d :: x :: post :=
            List.mem_append_right _ (List.mem_cons_of_mem _ List.mem_cons_self)
          refine ⟨x, hx, hnext x hx (hagree _ hsaved _ ?_)⟩
          exact List.mem_append_right _ (List.mem_cons_of_mem _ List.mem_cons_self)
      | nil =>
          -- the databases before have taken the record for what they hold
          obtain ⟨x, hx⟩ : ∃ x, x ∈ pre := by
            refine List.exists_mem_of_length_pos ?_
            rw [List.length_append, List.length_singleton] at hlength
            omega
          have hx' : x ∈ pre ++ [d] := List.mem_append_left _ hx
          have hlike := hdbs.agree d hmem x hx'
          have hsame := (hagree _ (List.mem_append_left _ hx) _ hsaved) key
          rw [hkept] at hsame
          obtain ⟨hobj, hcompare⟩ := FileDB.not_stores_iff.mp (hpre x hx)
          have hobj' := (hlike key).isObject.trans hobj
          exact absurd hd (FileDB.not_stores_iff.mpr
            ⟨hobj', compare_of_kept hobj' hlike hcompare hsame⟩)

variable (pton) in
/-- **Databases that agree after a record has been saved** have not stored it, or held just that
already. -/
theorem unchanging_of_agree (hdbs : Mirrors base dbs) (hlength : 2 ≤ dbs.length) {notify : Bool}
    (hagree : Agree (save pton dbs record notify).1) : AllUnchanging dbs record := by
  intro db hdb key hkey
  by_cases hstores : ∃ d ∈ dbs, d.Stores key record.json
  · obtain ⟨pre, d, post, rfl, hpre, hd⟩ := exists_first hstores
    obtain ⟨x, hx, hsame, hleft⟩ := same_of_agree pton hdbs hlength hkey hpre hd hagree
    have hheld := (hdbs.agree db hdb x hx key).trans hsame
    exact ⟨hheld.isObject, Or.inr ⟨hheld, hleft⟩⟩
  · obtain ⟨hobj, hcompare⟩ := FileDB.not_stores_iff.mp fun hd => hstores ⟨db, hdb, hd⟩
    exact ⟨hobj, Or.inl hcompare⟩

/-! ### Runs -/

theorem run_append (es : List Event) (e : Event) :
    run pton dbs (es ++ [e]) = step pton (run pton dbs es) e := by
  rw [run, List.foldl_append]
  rfl

/-- Nothing that is saved would be stored. -/
def NothingStored (pton : InetPton) (dbs : List FileDB) (es : List Event) : Prop :=
  ∀ pre record notify, pre ++ [.save record notify] <+: es →
    ∀ db ∈ run pton dbs pre, db.Unchanging record

/-- A run in which nothing is stored. -/
theorem mirrors_run (hdbs : Mirrors base dbs) {es : List Event} (h : NothingStored pton dbs es) :
    Mirrors base (run pton dbs es) ∧ (run pton dbs es).length = dbs.length := by
  induction es using List.reverseRecOn with
  | nil => exact ⟨hdbs, rfl⟩
  | append_singleton es e ih =>
      obtain ⟨hmirrors, hlen⟩ := ih fun pre record notify hpre =>
        h pre record notify (hpre.trans (List.prefix_append _ _))
      rw [run_append]
      cases e with
      | save record notify =>
          obtain ⟨hmirrors', hlen'⟩ :=
            save_unchanging pton hmirrors (h es record notify List.prefix_rfl) notify
          exact ⟨hmirrors', hlen'.trans hlen⟩
      | syncPass =>
          show Mirrors base (syncPass pton (run pton dbs es)) ∧ _
          rw [step, syncPass_eq hmirrors.agree]
          exact ⟨hmirrors, hlen⟩

/-- **Mirrored databases**: of two or more databases that hold records that say the same, all hold
records that say the same after every save and every pass of the sync checker, revisions included,
and one more pass changes nothing, exactly if nothing that is saved would be stored. -/
theorem mirrored_iff (pton : InetPton) (dbs : List FileDB) (hlength : 2 ≤ dbs.length)
    (hfiled : ∀ db ∈ dbs, FileDB.AllFiled db) (hagree : Agree dbs) (es : List Event) :
    (∀ pre, pre <+: es → Agree (run pton dbs pre) ∧
        syncPass pton (run pton dbs pre) = run pton dbs pre) ↔
      NothingStored pton dbs es := by
  obtain ⟨base, hbase⟩ := List.exists_mem_of_length_pos (Nat.zero_lt_of_lt hlength)
  have hdbs : Mirrors base dbs := fun db hdb => ⟨hfiled db hdb, hagree base hbase db hdb⟩
  constructor
  · intro h
    induction es using List.reverseRecOn with
    | nil =>
        intro pre record notify hpre
        exact absurd (List.prefix_nil.mp hpre) (List.append_ne_nil_of_right_ne_nil _ (by simp))
    | append_singleton es e ih =>
        have hes := ih fun pre hpre => h pre (hpre.trans (List.prefix_append _ _))
        intro pre record notify hpre
        rcases List.prefix_concat_iff.mp hpre with heq | hpre
        · -- the last event
          obtain ⟨rfl, he⟩ := List.append_inj' heq rfl
          obtain rfl := List.singleton_injective he
          obtain ⟨hmirrors, hlen⟩ := mirrors_run hdbs hes
          have hagree' := (h _ List.prefix_rfl).1
          rw [run_append] at hagree'
          exact unchanging_of_agree pton hmirrors (hlength.trans hlen.ge) hagree'
        · exact hes pre record notify hpre
  · intro h pre hpre
    obtain ⟨hmirrors, -⟩ := mirrors_run hdbs fun pre' record notify hpre' =>
      h pre' record notify (hpre'.trans hpre)
    exact ⟨hmirrors.agree, syncPass_eq hmirrors.agree⟩

/-! ### Two databases with a member -/

/-- A database that has one member. -/
def holding : FileDB := (FileDB.empty.save FileDB.oneAddress [()] (FileDB.addressed "1").json true).1.1

theorem recordKey_addressed :
    FileDB.recordKey (FileDB.addressed "1").json = some (.member 7 1) := by
  have hone : CString.strtoull 16 "1" = 1 := by decide
  have hseven : CString.strtoull 16 "7" = 7 := by decide
  have hid : jsonIntHex ((FileDB.addressed "1").json.get "id") 0 = 1 := hone
  have hnwid : jsonIntHex ((FileDB.addressed "1").json.get "nwid") 0 = 7 := hseven
  rw [FileDB.recordKey_member rfl, hid, hnwid]
  rfl

theorem held_empty : FileDB.empty.held (.member 7 1) = .null := by
  show FileDB.empty.getMember 7 1 = .null
  rw [FileDB.getMember, FileDB.networks_empty]
  rfl

/-- The member has been stored, with its first revision. -/
theorem holding_spec : FileDB.AllFiled holding ∧
    holding.held (.member 7 1) = (FileDB.addressed "1").revised.json := by
  have hstores : FileDB.empty.Stores (.member 7 1) (FileDB.addressed "1").json :=
    Or.inl (congrArg Json.isObject held_empty)
  obtain ⟨-, hfiled, hheld⟩ := FileDB.save_of_stores FileDB.oneAddress [()] true
    recordKey_addressed FileDB.allFiled_empty hstores
  exact ⟨hfiled, (hheld _).trans (if_pos rfl)⟩

/-- A member is saved as it is held, and the sync checker passes. -/
def savedAgain : List Event := [.save (FileDB.addressed "1").revised true, .syncPass]

theorem nothingStored_savedAgain :
    NothingStored FileDB.oneAddress [holding, holding] savedAgain := by
  intro pre record notify hpre db hdb
  cases pre with
  | nil =>
      obtain ⟨heq, -⟩ := List.cons_prefix_cons.mp hpre
      obtain ⟨rfl, rfl⟩ := Event.save.inj heq
      obtain rfl := List.eq_of_mem_replicate (n := 2) hdb
      refine FileDB.unchanging_of_same ((FileDB.recordKey_revised _).trans recordKey_addressed) ?_
      exact congrArg Json.meaning holding_spec.2
  | cons e pre =>
      obtain ⟨-, hpre⟩ := List.cons_prefix_cons.mp hpre
      have hmem := hpre.subset (List.mem_append_right pre (List.mem_singleton_self _))
      cases List.mem_singleton.mp hmem

/-- A member that is saved again is the same in both databases. -/
theorem mirrored_savedAgain : 2 ≤ [holding, holding].length ∧
    (∀ db ∈ [holding, holding], FileDB.AllFiled db) ∧ Agree [holding, holding] ∧
    ∀ pre, pre <+: savedAgain →
      Agree (run FileDB.oneAddress [holding, holding] pre) ∧
        syncPass FileDB.oneAddress (run FileDB.oneAddress [holding, holding] pre) =
          run FileDB.oneAddress [holding, holding] pre := by
  have hall : ∀ db ∈ [holding, holding], db = holding := fun db hdb =>
    List.eq_of_mem_replicate (n := 2) hdb
  have hfiled : ∀ db ∈ [holding, holding], FileDB.AllFiled db := fun db hdb =>
    hall db hdb ▸ holding_spec.1
  have hagree : Agree [holding, holding] := fun db hdb db' hdb' =>
    hall db hdb ▸ hall db' hdb' ▸ FileDB.Alike.refl holding
  exact ⟨le_rfl, hfiled, hagree, (mirrored_iff FileDB.oneAddress _ le_rfl hfiled hagree _).mpr
    nothingStored_savedAgain⟩

/-- **A member that is saved** in two databases has two revisions. -/
theorem mirrored_saved : ¬ ∀ (pton : InetPton) (dbs : List FileDB), 2 ≤ dbs.length →
    (∀ db ∈ dbs, FileDB.AllFiled db) → Agree dbs → ∀ es pre : List Event, pre <+: es →
      Agree (run pton dbs pre) ∧ syncPass pton (run pton dbs pre) = run pton dbs pre := by
  intro h
  have hmirrors : Mirrors FileDB.empty [FileDB.empty, FileDB.empty] := by
    intro db hdb
    obtain rfl := List.eq_of_mem_replicate (n := 2) hdb
    exact ⟨FileDB.allFiled_empty, FileDB.Alike.refl _⟩
  have hagree := (h FileDB.oneAddress _ le_rfl (fun db hdb => (hmirrors db hdb).1) hmirrors.agree
    _ [.save (FileDB.addressed "1") false] List.prefix_rfl).1
  have hunchanging := unchanging_of_agree FileDB.oneAddress hmirrors le_rfl hagree
  have hobj := (hunchanging _ List.mem_cons_self _ recordKey_addressed).1
  rw [held_empty] at hobj
  cases hobj

end DBMirrorSet

end ZGalaxy
